import FrostlakeOdbc.Attributes
import FrostlakeOdbc.AttributesProof
import FrostlakeOdbc.BinaryProof
import FrostlakeOdbc.Catalog
import FrostlakeOdbc.CatalogProof
import FrostlakeOdbc.ChunkProof
import FrostlakeOdbc.ChunkedLoop
import FrostlakeOdbc.ChunkedStrict
import FrostlakeOdbc.ConnStringProof
import FrostlakeOdbc.Connect
import FrostlakeOdbc.ConnectRule
import FrostlakeOdbc.ConvertForm
import FrostlakeOdbc.CurrentCatalog
import FrostlakeOdbc.CursorProof
import FrostlakeOdbc.DeliveryProof
import FrostlakeOdbc.DenotationProof
import FrostlakeOdbc.EchoProof
import FrostlakeOdbc.Engine
import FrostlakeOdbc.EngineRule
import FrostlakeOdbc.ExclusiveProof
import FrostlakeOdbc.Execute
import FrostlakeOdbc.ExecuteProof
import FrostlakeOdbc.FailureProof
import FrostlakeOdbc.FetchProof
import FrostlakeOdbc.FlOdbc
import FrostlakeOdbc.Http
import FrostlakeOdbc.HttpProof
import FrostlakeOdbc.IdentProof
import FrostlakeOdbc.Json
import FrostlakeOdbc.JsonAccept
import FrostlakeOdbc.JsonLoops
import FrostlakeOdbc.JsonPrefix
import FrostlakeOdbc.JsonProof
import FrostlakeOdbc.LayoutProof
import FrostlakeOdbc.Lib.Block
import FrostlakeOdbc.Lib.CNumber
import FrostlakeOdbc.Lib.CString
import FrostlakeOdbc.Lib.Client
import FrostlakeOdbc.Lib.Heap
import FrostlakeOdbc.Lib.HttpRequest
import FrostlakeOdbc.Lib.HttpText
import FrostlakeOdbc.Lib.Interleave
import FrostlakeOdbc.Lib.JsonGrammar
import FrostlakeOdbc.Lib.JsonSize
import FrostlakeOdbc.Lib.JsonText
import FrostlakeOdbc.Lib.JsonUnique
import FrostlakeOdbc.Lib.Layer
import FrostlakeOdbc.Lib.PartialIo
import FrostlakeOdbc.Lib.Scan
import FrostlakeOdbc.Lib.Scanf
import FrostlakeOdbc.Lib.Slots
import FrostlakeOdbc.Lib.Utf8
import FrostlakeOdbc.ListingProof
import FrostlakeOdbc.LiteralProof
import FrostlakeOdbc.LossProof
import FrostlakeOdbc.NotingLaw
import FrostlakeOdbc.NotingProof
import FrostlakeOdbc.NumberProof
import FrostlakeOdbc.NumericProof
import FrostlakeOdbc.NumericText
import FrostlakeOdbc.PackProof
import FrostlakeOdbc.Proto
import FrostlakeOdbc.ProtoRule
import FrostlakeOdbc.ProtoRuns
import FrostlakeOdbc.ReconnectProof
import FrostlakeOdbc.RecoveryProof
import FrostlakeOdbc.ReleaseProof
import FrostlakeOdbc.RequestProof
import FrostlakeOdbc.ResponseProof
import FrostlakeOdbc.Results
import FrostlakeOdbc.ReuseProof
import FrostlakeOdbc.Scanner
import FrostlakeOdbc.ScannerProof
import FrostlakeOdbc.ScannerReads
import FrostlakeOdbc.ScannerSpec
import FrostlakeOdbc.ScopeProof
import FrostlakeOdbc.Session
import FrostlakeOdbc.SessionHistory
import FrostlakeOdbc.SessionLaw
import FrostlakeOdbc.SettingsProof
import FrostlakeOdbc.SplicedNumber
import FrostlakeOdbc.StackProof
import FrostlakeOdbc.Statement
import FrostlakeOdbc.StatementInvariant
import FrostlakeOdbc.StatementProof
import FrostlakeOdbc.Strbuf
import FrostlakeOdbc.StrbufProof
import FrostlakeOdbc.StringFidelity
import FrostlakeOdbc.SubstitutionProof
import FrostlakeOdbc.TableTypesProof
import FrostlakeOdbc.TemporalProof
import FrostlakeOdbc.TemporalRoundTrip
import FrostlakeOdbc.TrackProof
import FrostlakeOdbc.Transport
import FrostlakeOdbc.TransportProof
import FrostlakeOdbc.UndoProof
import FrostlakeOdbc.Util
import FrostlakeOdbc.WireProof
