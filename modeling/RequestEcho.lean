import RequestEcho.Address.Parser
import RequestEcho.Buffer
import RequestEcho.CommandLine.Message
import RequestEcho.Connection
import RequestEcho.Log.Event
import RequestEcho.Main
import RequestEcho.Program
import RequestEcho.Proofs.Chunk.Token
import RequestEcho.Proofs.Connection.Delivery
import RequestEcho.Proofs.Reader.Expansion
import RequestEcho.Proofs.Request.Grammar
import RequestEcho.Proofs.Response.Delimited
import RequestEcho.Reader
import RequestEcho.Http
import RequestEcho.Text.Quoted
import RequestEcho.Text.Similarity
import RequestEcho.Proofs.Chunk.Decided
import RequestEcho.Proofs.Connection.Segmentation
import RequestEcho.Proofs.Connection.Protocol
import RequestEcho.Proofs.Connection.Readiness
import RequestEcho.Proofs.Connection.FirstItem
import RequestEcho.Proofs.Line.Occurrences
import RequestEcho.Proofs.Response.LineEnds
import RequestEcho.Proofs.Buffer.Taken
import RequestEcho.Proofs.CommandLine.Values
import RequestEcho.Proofs.CommandLine.Words
import RequestEcho.Proofs.CommandLine.Acceptance
import RequestEcho.Proofs.Server.Session
import RequestEcho.Proofs.Utf8.Substitution
import RequestEcho.Proofs.Address.Pieces
import RequestEcho.Proofs.Connection.Size
import RequestEcho.Proofs.Connection.Length
import RequestEcho.Proofs.Address.Groups
import RequestEcho.Proofs.Address.Printed
import RequestEcho.Proofs.Address.RoundTrip
import RequestEcho.Proofs.Level.Grammar
import RequestEcho.Proofs.CommandLine.GivenValue
import RequestEcho.Proofs.Address.Recognition
import RequestEcho.Proofs.Address.Characters
import RequestEcho.Proofs.CommandLine.Decisive
import RequestEcho.Proofs.Log.Decoding
