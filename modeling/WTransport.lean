import WTransport.VarInt
import WTransport.Bytes.Basic
import WTransport.Bytes.Reader
import WTransport.Bytes.Cursor
import WTransport.Bytes.Writer
import WTransport.Bytes.Async
import WTransport.Bytes.Source
import WTransport.Bytes.Sink
import WTransport.Bytes.VarIntCodec
import WTransport.Bytes.Assertions
import WTransport.Bytes.Await
import WTransport.Stream.Header
import WTransport.Stream.Codec
import WTransport.Stream.Encode
import WTransport.Stream.Async
import WTransport.Stream.Assertions
