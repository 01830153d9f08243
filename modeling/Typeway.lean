import Typeway.Client.HalfOpen
import Typeway.Client.Stream
import Typeway.Grpc.BodyOrder
import Typeway.Grpc.BytesText
import Typeway.Grpc.Diff
import Typeway.Grpc.DocsPage
import Typeway.Grpc.Imports
import Typeway.Grpc.MessageText
import Typeway.Grpc.Mixed
import Typeway.Grpc.Narrowing
import Typeway.Grpc.NativeStreaming
import Typeway.Grpc.Reflection
import Typeway.Grpc.RequestFields
import Typeway.Grpc.RestMapping
import Typeway.Grpc.Validate
import Typeway.Grpc.Varints
import Typeway.Grpc.WireFaithful
import Typeway.Macros.Concat
import Typeway.Macros.EnumField
import Typeway.Macros.Evolution
import Typeway.Macros.Hostile
import Typeway.Migrate.RoundTrip
import Typeway.OpenApi.Codegen
import Typeway.OpenApi.HandlerDocs
import Typeway.OpenApi.Swagger
import Typeway.Protobuf.BufPool
import Typeway.Protobuf.BytesStrOps
import Typeway.Protobuf.Repeated
import Typeway.Server.BodyLimit
import Typeway.Server.Bridge
import Typeway.Server.Builder
import Typeway.Server.Cookies
import Typeway.Server.Effects
import Typeway.Server.Middleware
import Typeway.Server.Negotiate
import Typeway.Server.PathExtract
import Typeway.Server.Sse
import Typeway.Server.StaticFiles
import Typeway.Server.TypedCall
import Typeway.Server.TypedWs
