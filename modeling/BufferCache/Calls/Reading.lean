import BufferCache.Calls.Call

/-!
# Reading blocks

A read gets the buffer of the block, starts a transfer unless the bytes are there
already, and waits for it.  If the bytes are not there then, the device could not
deliver them: the reference is given back and the read fails.

A read with others ahead starts transfers of further blocks, each of which gives
its buffer back at once, without waiting for the transfer.  With a single buffer,
which the read itself holds, the others are left out.

A page read gets the buffers of all its blocks and starts all transfers before it
waits for the first, so that the transfers overlap.  Number zero stands for a
hole, which reads as zeros, and so does a block that could not be read.
-/

namespace BufferCache
namespace World

variable {g : Geometry}

/-! ## Single blocks -/

/-- Get a buffer with the bytes of a block. -/
def fetch (w : World g) (b : Block) : Outcome g .fetched :=
  w.call (.acquire b) .fetching

/-- The buffer is there: start a transfer unless the bytes are there too. -/
def fetched (w : World g) (h : Hold g) : Outcome g .fetched :=
  orFault (w.cache.view h.handle) fun v =>
    if v.valid then w.done (.ok h)
    else w.call (.issue .read h.handle) (.fetchIssuing h)

/-- Wait for the transfer of a buffer. -/
def settle (w : World g) (h : Hold g) : Outcome g .fetched :=
  w.call (.awaitUnlock h.buffer) (.settling h)

/-- The transfer is over: give the reference back if the bytes are not there. -/
def settled (w : World g) (h : Hold g) : Outcome g .fetched :=
  orFault (w.cache.view h.handle) fun v =>
    if v.valid then w.done (.ok h)
    else w.call (.release h.handle) (.unwinding .blockUnread)

/-! ## Blocks with others ahead -/

/-- Get a buffer with the bytes of a block, and start reading further ones. -/
def fetchAhead (w : World g) (b : Block) (ahead : List BlockNumber) : Outcome g .fetched :=
  w.call (.acquire b) (.fetchingFirst b.device (if g.buffers > 1 then ahead else []))

/-- The first buffer is there: start its transfer unless the bytes are there. -/
def firstFetched (w : World g) (d : DeviceNumber) (ahead : List BlockNumber) (h : Hold g) :
    Outcome g .fetched :=
  orFault (w.cache.view h.handle) fun v =>
    if v.valid then w.goto (.readAhead h d ahead)
    else w.call (.issue .read h.handle) (.issuingFirst h d ahead)

/-- Get the buffer of the next block ahead. -/
def readAhead (w : World g) (h : Hold g) (d : DeviceNumber) :
    (ahead : List BlockNumber) → Outcome g .fetched
  | [] => w.goto (.settle h)
  | n :: ahead => w.call (.acquire ⟨d, n⟩) (.fetchingAhead h d ahead)

/-- Give the reference `t` to a block ahead back without waiting, and go on. -/
def letGo (w : World g) (h t : Hold g) (d : DeviceNumber) (ahead : List BlockNumber) :
    Outcome g .fetched :=
  orFault (w.cache.resolve t.handle) fun i =>
    (w.mapCache (·.unrefer i)).goto (.readAhead h d ahead)

/-- The buffer of a block ahead is there: start its transfer unless the bytes are
there. -/
def aheadFetched (w : World g) (h : Hold g) (d : DeviceNumber) (ahead : List BlockNumber)
    (t : Hold g) : Outcome g .fetched :=
  orFault (w.cache.view t.handle) fun v =>
    if v.valid then w.letGo h t d ahead
    else w.call (.issue .readAhead t.handle) (.issuingAhead h t d ahead)

/-! ## Pages -/

/-- The number of distinct blocks in a page, holes left out. -/
def distinctCount : List BlockNumber → Nat
  | [] => 0
  | n :: rest => distinctCount rest + if n = 0 ∨ n ∈ rest then 0 else 1

/-- Read four blocks into a page, which has to hold them, as the cache has to hold
all that are distinct. -/
def fetchPage (w : World g) (d : DeviceNumber) (numbers : List BlockNumber)
    (page : List UInt8) : Outcome g .page :=
  if page.length < blocksPerPage * blockSize then w.done (.error .pageTooShort, page)
  else if distinctCount numbers > g.buffers then w.done (.error .tooFewBuffers, page)
  else w.goto (.gather d numbers [] page)

/-- Get the buffer of the next block of a page. -/
def gather (w : World g) (d : DeviceNumber) (numbers : List BlockNumber) (held : Held g)
    (page : List UInt8) : Outcome g .page :=
  match numbers with
  | [] => w.goto (.collect held [] false page)
  | n :: numbers =>
      if n = 0 then w.goto (.gather d numbers (held ++ [none]) page)
      else w.call (.acquire ⟨d, n⟩) (.gathering d numbers held page)

/-- The buffer is there: start its transfer unless the bytes are there. -/
def gathered (w : World g) (d : DeviceNumber) (numbers : List BlockNumber) (held : Held g)
    (page : List UInt8) (h : Hold g) : Outcome g .page :=
  orFault (w.cache.view h.handle) fun v =>
    if v.valid then w.goto (.gather d numbers (held ++ [some h]) page)
    else
      w.call (.issue .read h.handle) (.gatherIssuing d numbers (held ++ [some h]) page)

/-- A page with its first bytes replaced by blocks. -/
def overlay (chunks : List Page) (page : List UInt8) : List UInt8 :=
  chunks.flatMap (·.toList) ++ page.drop (chunks.length * blockSize)

/-- Wait for the next block of a page, or end the page read. -/
def collect (w : World g) (held : Held g) (chunks : List Page) (failed : Bool)
    (page : List UInt8) : Outcome g .page :=
  match held with
  | [] =>
      w.done (if failed then .error .pageUnread else .ok (), overlay chunks page)
  | none :: held => w.goto (.collect held (chunks ++ [Page.zero]) failed page)
  | some h :: held =>
      w.call (.awaitUnlock h.buffer) (.collecting h held chunks failed page)

/-- The transfer is over: copy the bytes if they are there, and give the buffer
back. -/
def collected (w : World g) (h : Hold g) (held : Held g) (chunks : List Page)
    (failed : Bool) (page : List UInt8) : Outcome g .page :=
  orFault (w.cache.view h.handle) fun v =>
    if v.valid then
      w.call (.release h.handle)
        (.collected held (chunks ++ [w.cache.page h.buffer]) failed page)
    else
      w.call (.release h.handle) (.collected held (chunks ++ [Page.zero]) true page)

end World
end BufferCache
