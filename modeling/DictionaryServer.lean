import DictionaryServer.ProtobufCodecStream
import DictionaryServer.ProxyServer.Command
import DictionaryServer.ProxyServer.Cutoff
import DictionaryServer.ProxyServer.Delivery
import DictionaryServer.ProtobufCodecDamage
import DictionaryServer.ProtobufCodecSafety
import DictionaryServer.DAL.HiredisRefusals
import DictionaryServer.ProxyServer.Bookkeeping
import DictionaryServer.Lib.Pipes
import DictionaryServer.ProxyServer.Order
import DictionaryServer.Sender.LengthHeaderCodec
import DictionaryServer.Sender.Send
import DictionaryServer.Sender.Broadcast
import DictionaryServer.Lib.Binary64
import DictionaryServer.Sender.DictionaryUpdate
import DictionaryServer.Lib.Hierarchy
import DictionaryServer.Lib.Paths
import DictionaryServer.ZooKeeper
import DictionaryServer.Sender.NodeManager
import DictionaryServer.Sender.NodeTable
import DictionaryServer.ConservatorHandler
import DictionaryServer.Sender.Registration
import DictionaryServer.Lib.Delimiter
import DictionaryServer.ProxyServer.ReplyText
import DictionaryServer.ProtobufCodecCanonical
import DictionaryServer.Message.Parsed
import DictionaryServer.Sender.DictionaryRows
import DictionaryServer.Lib.Cursor
import DictionaryServer.Sender.PreRankScore
import DictionaryServer.DAL.HiredisChannels
import DictionaryServer.Sender.Connections
import DictionaryServer.Sender.Rescan
import DictionaryServer.Sender.StringUtil
import DictionaryServer.Sender.SystemConfig
import DictionaryServer.DAL.KeyPlacement
import DictionaryServer.Sender.BillQueries
import DictionaryServer.Muduo.EventLoop
import DictionaryServer.Muduo.Shutdown
import DictionaryServer.ProxyServer.FirstReply
import DictionaryServer.Muduo.TimerCancel
import DictionaryServer.HashKit.Crc
import DictionaryServer.HashKit.Jenkins
import DictionaryServer.HashKit.Md5
import DictionaryServer.Muduo.Poller
import DictionaryServer.Muduo.ServerLife
import DictionaryServer.Muduo.ServerRuns
