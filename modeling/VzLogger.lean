import VzLogger.Lib.EventMachine
import VzLogger.Lib.NodeList
import VzLogger.Lib.Json
import VzLogger.ObisGrammar
import VzLogger.Volkszaehler.Conservation
import VzLogger.Volkszaehler.Response
import VzLogger.Volkszaehler.Duplicates
import VzLogger.InfluxDB.Retry
import VzLogger.InfluxDB.Interleaving
import VzLogger.InfluxDB.Stream
import VzLogger.Aggregation.Drain
import VzLogger.Aggregation.Upload
import VzLogger.Aggregation.Average
import VzLogger.Aggregation.Split
import VzLogger.Aggregation.Integral
import VzLogger.FluksoV2
import VzLogger.LwipIF.Replies
import VzLogger.MeterMap.Read
import VzLogger.MeterMap.Schedule
import VzLogger.LocalBuffer
import VzLogger.MySmartGrid.Retry
import VzLogger.PushData
import VzLogger.CurlSessionProvider
import VzLogger.WakeUp
import VzLogger.Pipeline
import VzLogger.Shutdown.Finish
import VzLogger.Log.Deadlock
import VzLogger.Mqtt.Topics
import VzLogger.MeterS0.Timestamps
import VzLogger.MeterD0.Truncation
import VzLogger.MeterD0.Dump
import VzLogger.Pico.Wifi
import VzLogger.Pico.Logger
import VzLogger.Pico.Power
import VzLogger.Pico.LocalGUI
import VzLogger.MeterOCR.Needle
import VzLogger.MeterOCR.Read
import VzLogger.ScanfFormat
import VzLogger.FluksoV2.Line
import VzLogger.MeterOCR.Binary
import VzLogger.MeterOCR.Capture
import VzLogger.FileExec
import VzLogger.MeterSML
import VzLogger.MeterOMS
import VzLogger.Pico.Httpd
import VzLogger.LwipIF.Lock
import VzLogger.LwipIF.Cursor
import VzLogger.Pico.TimeSync
import VzLogger.Pico.Dst
import VzLogger.Pico.Ntp
import VzLogger.LocalRetention
import VzLogger.FluksoV2.Ends
import VzLogger.HexOption
import VzLogger.Config.Order
import VzLogger.Config.CommandLine
