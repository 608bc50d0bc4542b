import Vigil.Delivery.Address

/-!
# The standard client

One client for HTTP, and networks that it works over. Methods and the names of headers are tokens. An order
can be sent when its URL is a plain address and its headers hold nothing that a header may not hold. No
theorem about what others are told asks for this client.
-/

namespace Vigil

namespace Client

/-- A character of a method or of the name of a header. -/
def isTokenChar (c : Char) : Bool :=
  c.isAlphanum || "!#$%&'*+-.^_|~".toList.contains c || c.toNat == 0x60

def isToken (text : String) : Bool :=
  !text.isEmpty && text.toList.all isTokenChar

/-- A character that the value of a header may hold. -/
def isHeaderChar (c : Char) : Bool :=
  c == '\t' || (0x20 ≤ c.toNat && c.toNat != 0x7F)

/-- A header, if its name and its value may be sent. -/
def header? (name value : String) : Option (String × String) :=
  if isToken name && value.toList.all isHeaderChar then
    some (String.ofList (name.toList.map Char.toLower), value)
  else none

/-- The header that says what kind of content a body is. -/
def contentType : Body → List (String × String)
  | .text _ => []
  | .json _ => [("content-type", "application/json")]

def standardRequest? (o : Order) : Option Request := do
  let address ← Address.ofText? o.url
  let headers ← o.headers.mapM fun h => header? h.1 h.2
  let bearer ← o.bearer.toList.mapM fun token => header? "authorization" s!"Bearer {token}"
  return ⟨o.method, address, headers ++ bearer ++ contentType o.body, o.body⟩

def standard : Client := ⟨isToken, standardRequest?⟩

end Client

namespace Network

def offline : Network := ⟨.standard, fun _ _ => .unreachable, []⟩

/-- A network that does the listed exchanges in turn, and then accepts everything. -/
def scripted (exchanges : List Exchange) : Network :=
  ⟨.standard, fun i _ => exchanges.getD i (.carried [] (.answered 200 "")), []⟩

/-- A network on which an exchange depends on the request alone. -/
def steady (exchange : Request → Exchange) : Network := ⟨.standard, fun _ => exchange, []⟩

end Network

end Vigil
