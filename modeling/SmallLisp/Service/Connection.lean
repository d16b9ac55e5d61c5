import SmallLisp.Service.Request

/-!
The connections of clients. On each of them bytes come in chunks of any size; each line that is
complete and not blank is a request and gets one line as its answer.
-/

namespace SmallLisp.Service

def newline : UInt8 := 10

/-- Whether a byte is one of the six blanks of ASCII. -/
def isBlankByte (byte : UInt8) : Bool :=
  byte = 32 || (9 ≤ byte && byte ≤ 13)

/-- A line without the blanks around it. -/
def trimBytes (line : List UInt8) : List UInt8 :=
  (((line.dropWhile isBlankByte).reverse).dropWhile isBlankByte).reverse

/-- The complete lines of some bytes, and the bytes of the line that is not complete. -/
def cutLines : List UInt8 → List (List UInt8) × List UInt8
  | [] => ([], [])
  | byte :: bytes =>
    let (lines, rest) := cutLines bytes
    if byte = newline then ([] :: lines, rest)
    else match lines with
      | [] => ([], byte :: rest)
      | line :: others => ((byte :: line) :: others, rest)

def requests (lines : List (List UInt8)) : List (List UInt8) :=
  (lines.map trimBytes).filter (· ≠ [])

/-- What is sent after a chunk: the lines that answer its requests, up to a request that has no
answer. -/
structure Sent where
  texts : List String
  fault : Option Fault := none
  deriving DecidableEq

namespace Sent

/-- What is sent when every request has an answer. -/
def complete (texts : List String) : Sent := { texts }

/-- What is sent with one more line before it. -/
def cons (text : String) (sent : Sent) : Sent :=
  { sent with texts := text :: sent.texts }

end Sent

/-- What is sent for requests, each of which is answered before the next is looked at. -/
def answerAll (server : Server) : List (List UInt8) → Sent
  | [] => .complete []
  | request :: requests =>
    match handle server request with
    | .ok response => (answerAll server requests).cons response.line
    | .error fault => { texts := [], fault }

/-- What is sent after a chunk, and the bytes that wait for more, given those that waited before. -/
def receive (server : Server) (waiting chunk : List UInt8) : Sent × List UInt8 :=
  let (lines, rest) := cutLines (waiting ++ chunk)
  (answerAll server (requests lines), rest)

/-- What is sent after each chunk. The connection ends with the first chunk that is empty or has a
request without an answer, or after the last. -/
def serve (server : Server) (waiting : List UInt8) : List (List UInt8) → List Sent
  | [] => [.complete []]
  | [] :: _ => [.complete []]
  | chunk :: chunks =>
    let (sent, rest) := receive server waiting chunk
    match sent.fault with
    | none => sent :: serve server rest chunks
    | some _ => [sent]

section
variable {Client : Type} [DecidableEq Client]

/-- The bytes that wait on the connection of each client; none once the connection has ended. -/
abbrev Connections (Client : Type) : Type := Client → Option (List UInt8)

def Connections.set (connections : Connections Client) (client : Client)
    (waiting : Option (List UInt8)) : Connections Client :=
  fun other => if other = client then waiting else connections other

/-- What is sent to a client after its chunk, and the connections from then on. A chunk that is
empty ends the connection of its client, and so does a request that has no answer. -/
def Connections.receive (server : Server) (connections : Connections Client) (client : Client)
    (chunk : List UInt8) : Sent × Connections Client :=
  match connections client with
  | none => (.complete [], connections)
  | some waiting =>
    if chunk = [] then (.complete [], connections.set client none)
    else
      let (sent, rest) := Service.receive server waiting chunk
      match sent.fault with
      | none => (sent, connections.set client (some rest))
      | some _ => (sent, connections.set client none)

/-- What is sent to the client of each chunk after it, when the chunks of clients come one by one in
any order. -/
def serveAll (server : Server) (connections : Connections Client) :
    List (Client × List UInt8) → List (Client × Sent)
  | [] => []
  | (client, chunk) :: arrivals =>
    let (sent, next) := connections.receive server client chunk
    (client, sent) :: serveAll server next arrivals

end

end SmallLisp.Service
