import Mathlib.Data.List.Nodup

/-! # Linked lists whose nodes have addresses

A `std::list` keeps each element in a node of its own: a pointer to an element
stays valid while other elements come and go, and two equal elements are still
two nodes.  `NodeList` is such a list.  An address is handed out once, so the
addresses of a list are distinct and none of them is the next one; both facts
are fields.

An iterator is the address of the node it points to, `none` at the end.
-/

/-- A list node: where it is, and the element it holds. -/
structure Node (α : Type) where
  addr : Nat
  val : α
  deriving DecidableEq, Repr

/-- A linked list: its nodes in order, and the address of the next new node. -/
structure NodeList (α : Type) where
  nodes : List (Node α)
  next : Nat
  fresh : ∀ n ∈ nodes, n.addr < next
  nodup : (nodes.map Node.addr).Nodup

namespace NodeList
variable {α : Type}

theorem ext {l m : NodeList α} (hnodes : l.nodes = m.nodes) (hnext : l.next = m.next) : l = m := by
  obtain ⟨ln, lx, _, _⟩ := l
  obtain ⟨mn, mx, _, _⟩ := m
  obtain rfl : ln = mn := hnodes
  obtain rfl : lx = mx := hnext
  rfl

/-- The list without nodes. -/
def empty : NodeList α := ⟨[], 0, by simp, by simp⟩

/-- `push_back`: a new node at the end. -/
def pushBack (l : NodeList α) (a : α) : NodeList α where
  nodes := l.nodes ++ [⟨l.next, a⟩]
  next := l.next + 1
  fresh := by
    intro n hn
    rcases List.mem_append.mp hn with hn | hn
    · exact Nat.lt_succ_of_lt (l.fresh n hn)
    · rw [List.mem_singleton.mp hn]
      exact Nat.lt_succ_self _
  nodup := by
    rw [List.map_append, List.nodup_append]
    refine ⟨l.nodup, by simp, ?_⟩
    rintro a ha b hb rfl
    obtain ⟨n, hn, rfl⟩ := List.mem_map.mp ha
    simp only [List.map_cons, List.map_nil, List.mem_singleton] at hb
    exact absurd (l.fresh n hn) (by omega)

/-- A pass over the list that changes the elements in place. -/
def mapNodes (l : NodeList α) (f : Node α → α) : NodeList α where
  nodes := l.nodes.map (fun n => ⟨n.addr, f n⟩)
  next := l.next
  fresh := by
    intro n hn
    obtain ⟨m, hm, rfl⟩ := List.mem_map.mp hn
    exact l.fresh m hm
  nodup := by
    rw [List.map_map]
    exact l.nodup

/-- A pass that changes the first `k` elements in place and leaves the rest. -/
def mapFirst (l : NodeList α) (k : Nat) (f : α → α) : NodeList α where
  nodes := (l.nodes.take k).map (fun n => ⟨n.addr, f n.val⟩) ++ l.nodes.drop k
  next := l.next
  fresh := by
    intro n hn
    rcases List.mem_append.mp hn with hn | hn
    · obtain ⟨m, hm, rfl⟩ := List.mem_map.mp hn
      exact l.fresh m (List.mem_of_mem_take hm)
    · exact l.fresh n (List.mem_of_mem_drop hn)
  nodup := by
    have h : ((l.nodes.take k).map (fun n => (⟨n.addr, f n.val⟩ : Node α)) ++ l.nodes.drop k).map
        Node.addr = l.nodes.map Node.addr := by
      rw [List.map_append, List.map_map]
      conv_rhs => rw [← List.take_append_drop k l.nodes, List.map_append]
      rfl
    rw [h]
    exact l.nodup

/-- Erase every node whose element satisfies `p`. -/
def eraseIf (l : NodeList α) (p : α → Bool) : NodeList α where
  nodes := l.nodes.filter (fun n => !p n.val)
  next := l.next
  fresh := fun n hn => l.fresh n (List.mem_of_mem_filter hn)
  nodup := l.nodup.sublist (List.filter_sublist.map _)

/-- Two nodes of a list at one address are one node. -/
theorem eq_of_addr (l : NodeList α) {m n : Node α} (hm : m ∈ l.nodes) (hn : n ∈ l.nodes)
    (h : m.addr = n.addr) : m = n :=
  List.inj_on_of_nodup_map l.nodup hm hn h

@[simp] theorem mapNodes_nodes (l : NodeList α) (f : Node α → α) :
    (l.mapNodes f).nodes = l.nodes.map (fun n => ⟨n.addr, f n⟩) := rfl

theorem mapNodes_mapNodes (l : NodeList α) (f g : Node α → α) :
    (l.mapNodes f).mapNodes g = l.mapNodes (fun n => g ⟨n.addr, f n⟩) :=
  ext (by simp) rfl

@[simp] theorem empty_nodes : (empty : NodeList α).nodes = [] := rfl

theorem mapNodes_addrs (l : NodeList α) (f : Node α → α) :
    (l.mapNodes f).nodes.map Node.addr = l.nodes.map Node.addr := by
  rw [mapNodes_nodes, List.map_map]
  rfl

theorem mapFirst_addrs (l : NodeList α) (k : Nat) (f : α → α) :
    (l.mapFirst k f).nodes.map Node.addr = l.nodes.map Node.addr := by
  conv_rhs => rw [← List.take_append_drop k l.nodes, List.map_append]
  rw [mapFirst, List.map_append, List.map_map]
  rfl

/-- A node after a change to the first elements. -/
theorem mem_mapFirst {l : NodeList α} {k : Nat} {f : α → α} {n : Node α}
    (h : n ∈ (l.mapFirst k f).nodes) :
    ∃ m ∈ l.nodes, m.addr = n.addr ∧ (n = m ∨ m ∈ l.nodes.take k ∧ n = ⟨m.addr, f m.val⟩) := by
  rcases List.mem_append.mp h with h | h
  · obtain ⟨m, hm, rfl⟩ := List.mem_map.mp h
    exact ⟨m, List.mem_of_mem_take hm, rfl, .inr ⟨hm, rfl⟩⟩
  · exact ⟨n, List.mem_of_mem_drop h, rfl, .inl rfl⟩

/-! ## Iterators -/

/-- `begin()`. -/
def first (l : NodeList α) : Option Nat := l.nodes.head?.map Node.addr

/-- `*it`; there is none where the node has been erased. -/
def find (l : NodeList α) (a : Nat) : Option (Node α) := l.nodes.find? fun n => n.addr = a

/-- `++it`, for an iterator that points to a node of the list. -/
def after (l : NodeList α) (a : Nat) : Option Nat :=
  (l.nodes.dropWhile fun n => n.addr ≠ a).tail.head?.map Node.addr

theorem find_eq_some_iff {l : NodeList α} {a : Nat} {n : Node α} :
    l.find a = some n ↔ n ∈ l.nodes ∧ n.addr = a := by
  constructor
  · intro h
    exact ⟨List.mem_of_find?_eq_some h, by simpa using List.find?_some h⟩
  · rintro ⟨hn, rfl⟩
    cases h : l.find n.addr with
    | none => exact absurd (List.find?_eq_none.mp h n hn) (by simp)
    | some m =>
      have hm := List.mem_of_find?_eq_some h
      have haddr : m.addr = n.addr := by simpa using List.find?_some h
      rw [l.eq_of_addr hm hn haddr]

/-- The nodes stand in the order of their addresses, as they do where they are only added at
the end. -/
def Ordered (l : NodeList α) : Prop := (l.nodes.map Node.addr).Pairwise (· < ·)

theorem ordered_empty : (empty : NodeList α).Ordered := List.Pairwise.nil

theorem Ordered.pushBack {l : NodeList α} (h : l.Ordered) (a : α) : (l.pushBack a).Ordered := by
  unfold Ordered NodeList.pushBack
  rw [List.map_append, List.pairwise_append]
  refine ⟨h, List.pairwise_singleton _ _, ?_⟩
  intro x hx y hy
  obtain ⟨n, hn, rfl⟩ := List.mem_map.mp hx
  rw [List.mem_singleton.mp hy]
  exact l.fresh n hn

/-- Changes in place and erasures keep the order. -/
theorem Ordered.sublist {l m : NodeList α} (h : l.Ordered)
    (hsub : (m.nodes.map Node.addr).Sublist (l.nodes.map Node.addr)) : m.Ordered :=
  List.Pairwise.sublist hsub h

/-- Nothing comes before the beginning. -/
theorem Ordered.not_before_first {l : NodeList α} (h : l.Ordered) {n : Node α} (hn : n ∈ l.nodes) :
    ¬∀ b ∈ l.first, n.addr < b := by
  intro hbefore
  obtain ⟨m, ns, hnodes⟩ := List.exists_cons_of_ne_nil (List.ne_nil_of_mem hn)
  have hlt := hbefore m.addr (by rw [first, hnodes]; rfl)
  rw [Ordered, hnodes, List.map_cons, List.pairwise_cons] at h
  rw [hnodes] at hn
  rcases List.mem_cons.mp hn with rfl | hn
  · exact absurd hlt (Nat.lt_irrefl _)
  · have hge := h.1 n.addr (List.mem_map_of_mem hn)
    omega

/-- `++it` goes on to a later node, and leaves none out. -/
theorem Ordered.after_spec {l : NodeList α} (h : l.Ordered) {n : Node α} (hn : n ∈ l.nodes) :
    (∀ b ∈ l.after n.addr, n.addr < b) ∧
      ∀ m ∈ l.nodes, (∀ b ∈ l.after n.addr, m.addr < b) → m.addr ≤ n.addr := by
  obtain ⟨pre, post, hnodes⟩ := List.append_of_mem hn
  rw [Ordered, hnodes, List.map_append, List.map_cons, List.pairwise_append,
    List.pairwise_cons] at h
  obtain ⟨-, ⟨hpost, hsorted⟩, hpre⟩ := h
  have hbefore : ∀ m ∈ pre, m.addr < n.addr := fun m hm =>
    hpre _ (List.mem_map_of_mem hm) _ List.mem_cons_self
  have hafter : l.after n.addr = post.head?.map Node.addr := by
    have hskip : ∀ m ∈ pre, decide (m.addr ≠ n.addr) = true := fun m hm =>
      decide_eq_true (Nat.ne_of_lt (hbefore m hm))
    rw [after, hnodes, List.dropWhile_append_of_pos hskip, List.dropWhile_cons_of_neg (by simp),
      List.tail_cons]
  rw [hafter]
  constructor
  · intro b hb
    obtain ⟨m, hm, rfl⟩ := Option.map_eq_some_iff.mp hb
    exact hpost _ (List.mem_map_of_mem (List.mem_of_mem_head? hm))
  · intro m hm hlt
    rw [hnodes] at hm
    rcases List.mem_append.mp hm with hm | hm
    · exact Nat.le_of_lt (hbefore m hm)
    rcases List.mem_cons.mp hm with rfl | hm
    · exact Nat.le_refl _
    -- behind the successor there is nothing before it
    obtain ⟨k, ks, rfl⟩ := List.exists_cons_of_ne_nil (List.ne_nil_of_mem hm)
    have hk := hlt k.addr rfl
    rw [List.map_cons, List.pairwise_cons] at hsorted
    rcases List.mem_cons.mp hm with rfl | hm
    · exact absurd hk (Nat.lt_irrefl _)
    · have hge := hsorted.1 m.addr (List.mem_map_of_mem hm)
      omega

end NodeList
