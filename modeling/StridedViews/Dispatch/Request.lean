import StridedViews.Dispatch.Site

/-!
Requests to a dispatch site, so that what a site does over its life is a list of requests.
-/

namespace StridedViews

variable {σ : Type}

/-- One request to a site. -/
inductive Request where
  /-- Calls the generic entry with as many arguments as the arity says. -/
  | call (args : List Value)
  /-- Calls the generic entry with any number of arguments. -/
  | callDynamic (args : List Value)
  | execute (args : List Scalar) (wanted : ScalarKind)
  | dispatch (args : List Scalar) (wanted : ScalarKind)
  /-- Asks whether a cast is declared at a position. -/
  | hasCast (position : Nat)

/-- What a site answers. -/
inductive Reply where
  | value (v : Value)
  | scalar (s : Scalar)
  | dispatched (d : Dispatched)
  | flag (b : Bool)
  | failed (e : DispatchError)

/-- A result as a reply. -/
def Reply.ofExcept {α : Type} (f : α → Reply) : Except DispatchError α → Reply
  | .ok a => f a
  | .error e => failed e

namespace Site

/-- Serves one request. -/
def serve (site : Site σ) : Request → SiteM σ Reply
  | .call args => return .ofExcept .value (← site.call args)
  | .callDynamic args => return .ofExcept .value (← site.callDynamic args)
  | .execute args wanted => return .ofExcept .scalar (← site.execute args wanted)
  | .dispatch args wanted => return .ofExcept .dispatched (← site.dispatch args wanted)
  | .hasCast position => return .flag (← site.hasCast position)

/-- Serves requests in order. -/
def serveAll (site : Site σ) (requests : List Request) : SiteM σ (List Reply) :=
  requests.mapM site.serve

end Site
end StridedViews
