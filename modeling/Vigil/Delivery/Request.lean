import Vigil.Document.Json

/-!
# Clients, requests and the network

A service orders what is to be sent. A client knows which methods there are and makes requests of orders,
where an order can be made into one. The network carries a request to somebody or reaches nobody with it.
A request that is carried may be redirected, so that others follow it, before it is answered or the
connection is dropped. What the network does may depend on the request and on how many were sent before.

What a client makes of an order and what the network does is settled elsewhere.
-/

namespace Vigil

/-- What a request carries. -/
inductive Body where
  | text (content : String)
  | json (content : Json)

/-- What a client is asked to send; the bearer's token stands for a header of its own. -/
structure Order where
  method : String
  url : String
  headers : List (String × String)
  bearer : Option String
  body : Body

/-- Where a request goes, as it is written on the request. -/
structure Address where
  text : String
  deriving DecidableEq, Repr

/-- A request; the names of headers are in lower case. -/
structure Request where
  method : String
  address : Address
  headers : List (String × String)
  body : Body

structure Client where
  isMethod : String → Bool
  form? : Order → Option Request

/-- The requests of a client carry what was ordered. -/
def Client.CarriesBody (c : Client) : Prop :=
  ∀ o r, c.form? o = some r → r.body = o.body

/-- What comes back on a request. -/
inductive Reply where
  | answered (status : Nat) (body : String)
  | dropped
  deriving DecidableEq, Repr

/-- What becomes of a request: it reaches nobody, or it is carried, and the client follows where it is
redirected, up to a reply. -/
inductive Exchange where
  | unreachable
  | carried (further : List Request) (reply : Reply)

namespace Exchange

/-- What is heard of an exchange. Nobody answers who is not reached. -/
def reply : Exchange → Reply
  | unreachable => .dropped
  | carried _ reply => reply

/-- The requests that reached somebody. -/
def requests (r : Request) : Exchange → List Request
  | unreachable => []
  | carried further _ => r :: further

end Exchange

/-- A client at a network, and the requests that were sent so far. -/
structure Network where
  client : Client
  exchange : Nat → Request → Exchange
  sent : List Request

namespace Network

def send (n : Network) (r : Request) : Exchange × Network :=
  let exchange := n.exchange n.sent.length r
  (exchange, { n with sent := n.sent ++ exchange.requests r })

/-- The network after its requests have been taken note of. -/
def forget (n : Network) : Network :=
  { n with exchange := fun i => n.exchange (n.sent.length + i), sent := [] }

end Network

end Vigil
