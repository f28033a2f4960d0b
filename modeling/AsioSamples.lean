import AsioSamples.Asio.SchedulerReturns
import AsioSamples.Asio.SchedulerSleep
import AsioSamples.Asio.StrandRuns
import AsioSamples.Build.ThirdPartyPaths
import AsioSamples.Tcp.AsyncDelivery
import AsioSamples.Tcp.AsyncLifetime
import AsioSamples.Tcp.EndToEnd
import AsioSamples.Tcp.LibraryAsyncWrite
import AsioSamples.Tcp.LibraryWrite
import AsioSamples.Tcp.Survival
import AsioSamples.Timer.AsioPrinterRuns
import AsioSamples.Udp.Agreement
import AsioSamples.Udp.AsyncReplies
import AsioSamples.Udp.Client
