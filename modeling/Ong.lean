import Ong.Scl.SubManagerUpdates
import Ong.Scl.SubsManagerFilters
import Ong.Scl.SubscriptionsQuota
import Ong.Scl.M2MPocsAggregate
import Ong.Scl.ContentInstancesLatest
import Ong.Rtbase.HashtblMap
import Ong.Rtbase.MessageKept
import Ong.Azap.ZnpFraming
import Ong.Azap.RequestLimits
import Ong.Azap.RequestTrace
import Ong.Azap.RequestConfirm
import Ong.Azap.RequestAgeing
import Ong.Azap.ZnpStartSmComplete
import Ong.StorageDriver.DocumentMapRuns
import Ong.Modbus.SensorReaderReports
import Ong.Wmbus.DongleFraming
import Ong.DrvCommon.DiaClientTable
import Ong.DrvCommon.DiaServerAnswers
import Ong.MicroDia.RequestCorrelation
import Ong.MicroDia.MessageRoundTrip
import Ong.Watteco.ZclRoundTrip
import Ong.Dia.BlockWiseDelivery
import Ong.Scl.AccessRightsDecision
import Ong.Scl.ContentInstancesMinimal
import Ong.SongHttp.LongPollingClient
import Ong.Song.ApplicationSessionLife
import Ong.Knx.SupervisorConvergence
import Ong.SongHttp.LongPollingServerOnce
import Ong.SongHttp.HttpServerRequests
import Ong.Azap.AttributeListParsers
import Ong.Azap.ZclAttrValRoundTrip
import Ong.Azap.ZclAttrValText
import Ong.Scl.DefaultAccessRight
import Ong.Scl.FilterMerge
import Ong.Scl.NormalizePath
import Ong.Scl.Retargeting
import Ong.Scl.SubManagerFailures
import Ong.Azap.ZdoAddrResponses
import Ong.Util.DateTime
import Ong.Util.Base64
import Ong.Rtbase.Base64
import Ong.Azap.HexStrings
import Ong.Util.MultiMapHeap
import Ong.Util.Quoting
import Ong.Watteco.ZclBounds
import Ong.Xo.Compress
import Ong.Knx.Bits
import Ong.Xo.NameSpaces
import Ong.Knx.CovConfig
import Ong.Rtbase.BinToStr
import Ong.Modbus.DecodeAccess
import Ong.Modbus.RequestCompletion
import Ong.Modbus.SubAttributes
import Ong.Wmbus.ParserRecords
import Ong.Wmbus.ParserBounds
import Ong.Knx.Iso8601
import Ong.MicroDia.MessageBuffers
import Ong.Rtbase.Dolpath
import Ong.Xo.SharedDico
import Ong.Song.PathRoutes
import Ong.M2M.MediaTypeNegotiation
import Ong.Dia.SplitUri
import Ong.StorageDriver.BatchModify
import Ong.Knx.Reporting
import Ong.Song.HCCopyOnWrite
import Ong.Wmbus.Telegrams
import Ong.Util.Base64Exchange
import Ong.Azap.ZclReports
import Ong.Azap.ZclAttrValCalls
