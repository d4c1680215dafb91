import OtusCProg.Crc32.Correctness
import OtusCProg.Crc32.Burst
import OtusCProg.RingbufDriver.Refinement
import OtusCProg.RingbufDriver.WriteAll
import OtusCProg.RingbufDriver.Failures
import OtusCProg.RingbufDriver.Stream
import OtusCProg.RingbufDriver.Lifetime
import OtusCProg.HashmapOpen.WordCount
import OtusCProg.HashmapOpen.Termination
import OtusCProg.HashmapOpen.Entries
import OtusCProg.HashmapOpen.Tokenizer
import OtusCProg.Logger.Producers
import OtusCProg.Logger.QueueEnds
import OtusCProg.Logger.Shutdown
import OtusCProg.Logger.Level
import OtusCProg.LogReader.Sequential
import OtusCProg.LogReader.Format
import OtusCProg.LogReader.Lines
import OtusCProg.LogReader.FileNames
import OtusCProg.LogReader.UrlDecode
import OtusCProg.LogReader.Report
import OtusCProg.ZipJpeg.Prefix
import OtusCProg.ZipJpeg.Bounds
import OtusCProg.ZipJpeg.Listing
import OtusCProg.ZipJpeg.Geometry
import OtusCProg.Codepage.Conversion
import OtusCProg.Codepage.OutputBlock
import OtusCProg.PointWaveModel.Decay
import OtusCProg.Daemon.SingleInstance
import OtusCProg.Daemon.Config
import OtusCProg.Daemon.Server
import OtusCProg.HttpServer.ResponseStream
import OtusCProg.HttpServer.Segmentation
import OtusCProg.HttpServer.RequestLine
import OtusCProg.HttpServer.UrlDecode
import OtusCProg.HttpServer.ErrorDelivery
import OtusCProg.HttpServer.Ownership
import OtusCProg.HttpServer.Descriptors
import OtusCProg.HttpServer.Dialogue
import OtusCProg.HttpServer.Buffers
import OtusCProg.Telnet.Prompt
import OtusCProg.Telnet.Command
import OtusCProg.PointWaveModel.Schedule
import OtusCProg.PointWaveModel.Jonswap
import OtusCProg.PointWaveModel.Search
import OtusCProg.PointWaveModel.Output
import OtusCProg.PointWaveModel.Rotation
import OtusCProg.PointWaveModel.Swell
import OtusCProg.Dbstat.Statistics
import OtusCProg.Dbstat.Session
import OtusCProg.HashmapOpen.Report
import OtusCProg.HashmapOpen.WholeRun
import OtusCProg.Game.Play
import OtusCProg.FileTree.Model
import OtusCProg.ZipJpeg.WholeRun
import OtusCProg.Weather.Program
import OtusCProg.ListProgram.Completion
import OtusCProg.ListProgram.Agreement
