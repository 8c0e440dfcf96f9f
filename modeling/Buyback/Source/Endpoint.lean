import Buyback.Codec.Split
import Buyback.Source.Keys
import Buyback.Source.Text
import Mathlib.Data.List.DropRight

/-!
# RPC endpoints

How `chain.rs` connects to one endpoint: the checks of its URL and of its bearer key,
then the handshake, each with its own error.  The URLs, the header values, the websocket
and the client behind it are third party, so they are parameters; what the network
answers in one run is an argument.
-/

namespace Buyback

/-- One RPC endpoint, optionally with a bearer key sent on the websocket handshake. -/
structure Endpoint where
  url : String
  bearer : Option String
deriving DecidableEq

namespace Endpoint

def new (url : String) : Endpoint := ⟨url, none⟩

/-- A blank key is no key. -/
def withBearer (ep : Endpoint) (key : String) : Endpoint :=
  { ep with bearer := if trim key = "" then none else some (trim key) }

end Endpoint

/-- The delimiter behind the scheme of a URL. -/
def schemeEnd : List Char := [':', '/', '/']

/-- The delimiters that end the host of a URL. -/
def hostEnds : List Char := ['/', '?', '#']

/-- Keep scheme and host of an RPC URL (a key could sit in a path or query). -/
def redactUrl (url : String) : String :=
  match Split.once schemeEnd url.toList with
  | some (scheme, rest) =>
      let host := rest.takeWhile (· ∉ hostEnds)
      String.ofList (scheme ++ schemeEnd ++ host.rtakeWhile (· ≠ '@'))
  | none => "<invalid url>"

/-- The URLs and header values of the websocket client, and what it connects. -/
class Websocket where
  /-- A parsed URL. -/
  Url : Type
  parse : String → Option Url
  hostStr : Url → Option String
  scheme : Url → String
  /-- A header value without control characters. -/
  HeaderValue : Type
  headerValue : String → Option HeaderValue
  Transport : Type
  /-- The client of a chain. -/
  Client : Type

variable [Websocket]

/-- What the network answers in one run. -/
structure Network where
  /-- The websocket of a handshake with an optional key. -/
  build : Websocket.Url → Option Websocket.HeaderValue → Option Websocket.Transport
  /-- The client, once the node has answered for its genesis and metadata. -/
  fromBackend : Websocket.Transport → Except String Websocket.Client

def isLoopback (url : Websocket.Url) : Bool :=
  Websocket.hostStr url ∈ ["127.0.0.1", "localhost", "::1", "[::1]"].map some

/-- `wss://` required unless the host is loopback. -/
def schemeAllowed (url : Websocket.Url) : Bool :=
  Websocket.scheme url = "wss" ∨ (Websocket.scheme url = "ws" ∧ isLoopback url = true)

section

variable [StdTexts]

def badUrl (url : String) : Error := .config ("bad RPC url " ++ debugStr url)

def plaintextUrl (url : String) : Error :=
  .config ("RPC url " ++ debugStr url ++ " must be wss:// (ws:// only on loopback)")

def badKey : Error := .config "RPC key is not a valid header value"

def cannotConnect (url : String) : Error := .chain ("cannot connect to " ++ redactUrl url)

/-- The `Authorization` header of a key. -/
def authorization : Option String → Result (Option Websocket.HeaderValue)
  | none => .ok none
  | some key => (okOr (Websocket.headerValue ("Bearer " ++ key)) badKey).map some

/-- The websocket handshake and the client on it. -/
def handshake (network : Network) (ep : Endpoint) (url : Websocket.Url) :
    Result Websocket.Client := do
  let header ← authorization ep.bearer
  let transport ← okOr (network.build url header) (cannotConnect ep.url)
  (network.fromBackend transport).mapError Error.chain

/-- Connect to one endpoint. -/
def connectEndpoint (network : Network) (ep : Endpoint) : Result Websocket.Client := do
  let url ← okOr (Websocket.parse ep.url) (badUrl ep.url)
  if schemeAllowed url = false then .error (plaintextUrl ep.url) else handshake network ep url

/-! ## Several endpoints -/

/-- What the network answers while one endpoint is tried. -/
structure Visit where
  network : Network
  bestFinalizedNumber : Websocket.Client → Result UInt64

def noEndpoint : Error := .config "no RPC endpoint configured"

/-- One round over the endpoints, the first of which is the `n`-th that is tried.  An error is
the `last` of the round. -/
def tryRound (visits : ℕ → Visit) : List Endpoint → ℕ → Error → Result Websocket.Client
  | [], _, last => .error last
  | ep :: eps, n, _ =>
      match connectEndpoint (visits n).network ep with
      | .ok c =>
          match (visits n).bestFinalizedNumber c with
          | .ok _ => .ok c
          | .error e => tryRound visits eps (n + 1) e
      | .error e => tryRound visits eps (n + 1) e

def tryRounds (visits : ℕ → Visit) (eps : List Endpoint) :
    ℕ → ℕ → Error → Result Websocket.Client
  | 0, _, last => .error last
  | rounds + 1, n, last =>
      match tryRound visits eps n last with
      | .ok c => .ok c
      | .error last => tryRounds visits eps rounds (n + eps.length) last

/-- `connect_any`, without the pauses between its rounds. -/
def connectAny (visits : ℕ → Visit) (eps : List Endpoint) (attempts : UInt32) :
    Result Websocket.Client :=
  tryRounds visits eps (max attempts.toNat 1) 0 noEndpoint

end

end Buyback
