import BufferCache.Calls.Call

/-!
# Serving requests

A driver is started when the first request enters its chain, and has to go on by
itself as long as the end of one request leaves another.  A disk and an automatic
driver do so at once.  A manual driver runs the script laid down for its start,
which may end requests or leave them.

A driver serves the requests of its own major number.
-/

namespace BufferCache
namespace World

variable {g : Geometry}

/-- Start the driver of major `m`. -/
def start (w : World g) (m : Nat) : Outcome g .unit :=
  match w.cache.driver? m with
  | none => w.done ()
  | some d =>
      match d.kind with
      | .idle => w.done ()
      | .manual _ =>
          let taken := (w.emit (.started d.major)).takeStart d.major
          taken.2.goto (.play taken.1)
      | .disk _ | .automatic _ _ => w.goto (.serve m)

/-- Let the driver of major `m` serve the current request of its own major number,
and go on if another one follows. -/
def serve (w : World g) (m : Nat) : Outcome g .unit :=
  match w.cache.driver? m with
  | none => w.done ()
  | some d =>
      match w.cache.requests.currentRequest d.major with
      | none => w.done ()
      | some q =>
          let served := w.carryOut m d q
          orFault (served.1.finish d.major served.2) fun ended =>
            if ended.2 then ended.1.goto (.serve m) else ended.1.done ()

end World
end BufferCache
