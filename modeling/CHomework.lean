import CHomework.WordCounter.Counter
import CHomework.WordCounter.UniqueKeys
import CHomework.WordCounter.WholeKeys
import CHomework.WordCounter.Frame
import CHomework.WordCounter.Dictionary
import CHomework.WordCounter.WordCount
import CHomework.WordCounter.ReadBack
import CHomework.WordCounter.Deletion
import CHomework.WordCounter.Initialised
import CHomework.WordCounter.Hash
import CHomework.WordCounter.Growth
import CHomework.WordCounter.Program
import CHomework.ZipJpeg.Safety
import CHomework.ZipJpeg.Listing
import CHomework.ZipJpeg.Search
import CHomework.ZipJpeg.Progress
import CHomework.ZipJpeg.Outcome
import CHomework.UtfEncoder.Injective
import CHomework.UtfEncoder.Symbols
import CHomework.UtfEncoder.Output
import CHomework.Crc32.Burst
import CHomework.Crc32.Errors
import CHomework.FileObserver.Subscription
import CHomework.FileObserver.Messages
import CHomework.FileObserver.Handshake
import CHomework.FileObserver.Subscribing
import CHomework.FileObserver.Startup
import CHomework.TelehackClient.Reply
import CHomework.TelehackClient.Command
import CHomework.TelehackClient.Safety
import CHomework.TelehackClient.Session
import CHomework.AsmLists.Alignment
import CHomework.AsmLists.Frames
import CHomework.AsmLists.Freeing
import CHomework.CJson.StandardOutput
import CHomework.WeatherApi.Program
