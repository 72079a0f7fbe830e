import ShadowSe.Crawl.AbsoluteUrls
import ShadowSe.Crawl.Bloom
import ShadowSe.Crawl.BloomRun
import ShadowSe.Crawl.Compliance
import ShadowSe.Crawl.Confinement
import ShadowSe.Crawl.Crawler
import ShadowSe.Crawl.CrawlerLinks
import ShadowSe.Crawl.CrawlerRun
import ShadowSe.Crawl.Exploring
import ShadowSe.Crawl.Frontier
import ShadowSe.Crawl.FrontierRun
import ShadowSe.Crawl.HrefLookup
import ShadowSe.Crawl.Html
import ShadowSe.Crawl.LinkLoop
import ShadowSe.Crawl.Politeness
import ShadowSe.Crawl.RelativeLinks
import ShadowSe.Crawl.RemovedElements
import ShadowSe.Crawl.Reporting
import ShadowSe.Crawl.Robots
import ShadowSe.Crawl.RobotsCache
import ShadowSe.Crawl.RobotsGroups
import ShadowSe.Crawl.RobotsRules
import ShadowSe.Crawl.Scheduling
import ShadowSe.Crawl.SingleWorker
import ShadowSe.Crawl.StripLoop
import ShadowSe.Crawl.UrlParts
import ShadowSe.Crawl.Verdicts
import ShadowSe.Crawl.VisibleWords
import ShadowSe.Crawl.WakeUps
import ShadowSe.Crypto.Base32
import ShadowSe.Crypto.Base64
import ShadowSe.Gateway.GatewayRun
import ShadowSe.Gateway.Handlers
import ShadowSe.Gateway.SearchJson
import ShadowSe.Gateway.SearchUtf8
import ShadowSe.Index.IndexInvariant
import ShadowSe.Index.IndexReload
import ShadowSe.Index.IndexRun
import ShadowSe.Index.InvertedIndex
import ShadowSe.Index.TermCount
import ShadowSe.Json.Grammar
import ShadowSe.Json.NumberText
import ShadowSe.Json.Parser
import ShadowSe.Json.ParserComplete
import ShadowSe.Json.ParserSound
import ShadowSe.Json.Rfc8259
import ShadowSe.Json.RoundTrip
import ShadowSe.Json.Scanner
import ShadowSe.Json.Strings
import ShadowSe.Json.Utf8Strings
import ShadowSe.Json.Value
import ShadowSe.Net.CurlFetcher
import ShadowSe.Net.FetchFailover
import ShadowSe.Net.FetchTries
import ShadowSe.Net.OnionRouting
import ShadowSe.Net.ProxyHealth
import ShadowSe.Search.Bm25
import ShadowSe.Search.ConcurrentSearch
import ShadowSe.Search.CrawlSearch
import ShadowSe.Search.Persistence
import ShadowSe.Search.RankSpec
import ShadowSe.Search.SearchExact
import ShadowSe.Shell.SaveAndLoad
import ShadowSe.Shell.Session
import ShadowSe.Shell.SessionRun
import ShadowSe.Storage.EncryptedSnapshot
import ShadowSe.Storage.Loading
import ShadowSe.Storage.ReadBounds
import ShadowSe.Storage.Snapshot
import ShadowSe.Storage.SnapshotCut
import ShadowSe.Storage.SnapshotFormat
import ShadowSe.Storage.WriterReader
import ShadowSe.Support.Binary64
import ShadowSe.Support.BitText
import ShadowSe.Support.BreadthFirst
import ShadowSe.Support.Exploration
import ShadowSe.Support.Machine
import ShadowSe.Support.Monitor
import ShadowSe.Support.Ranking
import ShadowSe.Support.Table
import ShadowSe.Support.Utf8
import ShadowSe.Support.WordBits
import ShadowSe.Text.Bytes
import ShadowSe.Text.CaseFolding
import ShadowSe.Text.Integers
import ShadowSe.Text.Numerals
import ShadowSe.Text.TokenStable
import ShadowSe.Text.Tokenizer
import ShadowSe.Text.Utf8Exact
import ShadowSe.Tor.Backoff
import ShadowSe.Tor.Failover
import ShadowSe.Tor.ProbeRaces
import ShadowSe.Tor.ProxyFlags
import ShadowSe.Tor.ProxyList
import ShadowSe.Tor.ProxyManager
import ShadowSe.Tor.ProxyPool
import ShadowSe.Tor.Quarantine
import ShadowSe.Tor.RoundRobin
import ShadowSe.Tor.UniqueEndpoints
import ShadowSe.Web.AdminServer
import ShadowSe.Web.Connections
import ShadowSe.Web.HttpRequest
import ShadowSe.Web.ResultPage
import ShadowSe.Web.Transfer
import ShadowSe.Web.UrlDecoding
import ShadowSe.Web.WebServer
