import NetComponents.Scgi.Message

/-!
# The pool of SCGI connections

`scgi::Pool` keeps a weak reference to each connection that it has created, under the
connection's id; the destructor of a connection takes its entry out.
-/

namespace NetComponents.Scgi

/-- The ids that connections get. -/
abbrev CID := ℕ

/-- `scgi::Pool`; `connections` are the keys of the map. -/
structure Pool where
  maxSize : ℕ
  connections : Finset CID
  fshutdown : Bool
  deriving DecidableEq

namespace Pool

def fresh (maxSize : ℕ) : Pool := ⟨maxSize, ∅, false⟩

/-- The locked part of `getConnection()`; `id` is what the connection gets if it is created. -/
def insertConnection (p : Pool) (id : CID) : Option CID × Pool :=
  if p.connections.card < p.maxSize then
    (some id, { p with connections := insert id p.connections })
  else (none, p)

def getConnection (p : Pool) (id : CID) : Option CID × Pool :=
  if p.fshutdown then (none, p) else p.insertConnection id

/-- The locked part of `freeConnection()`, which the destructor of a connection calls. -/
def eraseConnection (p : Pool) (id : CID) : Bool × Pool :=
  if id ∈ p.connections then (true, { p with connections := p.connections.erase id })
  else (false, p)

def freeConnection (p : Pool) (id : CID) : Bool × Pool :=
  if p.fshutdown then (false, p) else p.eraseConnection id

end Pool

end NetComponents.Scgi
