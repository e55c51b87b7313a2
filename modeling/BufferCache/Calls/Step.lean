import BufferCache.Calls.Acquiring
import BufferCache.Calls.Flushing
import BufferCache.Calls.Performing
import BufferCache.Calls.Reading
import BufferCache.Calls.Requesting
import BufferCache.Calls.Serving
import BufferCache.Calls.Waiting

/-!
# Beginning and resuming calls

`Call.begin` is the first step of a call, `Frame.resume` the step of a suspended
call that is given the value it awaits.  Together they say what every call
does.
-/

namespace BufferCache

variable {g : Geometry}

/-- The first step of a call. -/
def Call.begin {s : Shape} (c : Call g s) (w : World g) : Outcome g s :=
  match c with
  | .sleep q ticket => w.sleep q ticket
  | .play script => w.play script
  | .awaitUnlock i => w.awaitUnlock i
  | .lock i => w.lock i
  | .lookUp b => w.lookUp b
  | .acquire b => w.acquire b
  | .obtain b => w.obtain b
  | .release h => w.release h
  | .fetch b => w.fetch b
  | .fetchAhead b ahead => w.fetchAhead b ahead
  | .readAhead h d ahead => w.readAhead h d ahead
  | .settle h => w.settle h
  | .fetchPage d numbers page => w.fetchPage d numbers page
  | .gather d numbers held page => w.gather d numbers held page
  | .collect held chunks failed page => w.collect held chunks failed page
  | .issue op h => w.issue op h
  | .request op i => w.request op i
  | .enqueue op i d number => w.enqueue op i d number
  | .start m => w.start m
  | .serve m => w.serve m
  | .flush scope => w.flush scope
  | .flushRounds scope rounds writes => w.flushRounds scope rounds writes
  | .flushBuffers scope rounds writes rest => w.flushBuffers scope rounds writes rest
  | .discard d => w.discard d
  | .discardBuffers d rest => w.discardBuffers d rest
  | .checkMedium d => w.checkMedium d
  | .perform c => w.perform c
  | .drain m pattern upcoming ended => w.drain m pattern upcoming ended

/-- The step of a suspended call that is given the value it awaits. -/
def Frame.resume {a s : Shape} (f : Frame g a s) (v : a.Value g) (w : World g) :
    Outcome g s :=
  match f with
  | .sleeping q ticket => w.goto (.sleep q ticket)
  | .playing rest => w.played rest v
  | .awaitingUnlock i => w.goto (.awaitUnlock i)
  | .awaitingLock i => w.goto (.lock i)
  | .pinning b i => w.pinned b i
  | .lookingUp b => w.lookedUp b v
  | .starving b => w.goto (.obtain b)
  | .awaitingVictim b i => w.victimReady b i
  | .flushingVictim b i => w.call (.awaitUnlock i) (.awaitingVictim b i)
  | .releasing _ i => w.released i
  | .fetching => w.fetched v
  | .fetchIssuing h => w.goto (.settle h)
  | .settling h => w.settled h
  | .unwinding f => w.done (.error f)
  | .fetchingFirst d ahead => w.firstFetched d ahead v
  | .issuingFirst h d ahead => w.goto (.readAhead h d ahead)
  | .fetchingAhead h d ahead => w.aheadFetched h d ahead v
  | .issuingAhead h t d ahead => w.letGo h t d ahead
  | .gathering d numbers held page => w.gathered d numbers held page v
  | .gatherIssuing d numbers held page => w.goto (.gather d numbers held page)
  | .collecting h held chunks failed page => w.collected h held chunks failed page
  | .collected held chunks failed page => w.goto (.collect held chunks failed page)
  | .locking op i d => w.locked op i d
  | .awaitingVacancy op i d number => w.goto (.enqueue op i d number)
  | .announcing scope rounds writes =>
      w.goto (.flushBuffers scope rounds writes g.allBuffers)
  | .flushAwaiting scope rounds writes i rest => w.flushReady scope rounds writes i rest
  | .flushWriting scope rounds writes rest =>
      w.goto (.flushBuffers scope rounds writes rest)
  | .discardAwaiting d i rest => w.discardReady d i rest
  | .mediumAnnouncing d => w.call (.discard d) .mediumDiscarding
  | .mediumDiscarding => w.done true
  | .keepHold name => w.answerHold name v
  | .keepFound name => w.answerFound name v
  | .keepFetched name => w.answerFetched name v
  | .guardHold name => w.guardHeld name v
  | .guardFetched name => w.guardFetched name v
  | .filling byte => w.fillHeld byte v
  | .touching => w.call (.release v.handle) (.answering (.handle v.handle))
  | .answering a => w.done a
  | .answerFlag => w.done (.truth v)
  | .answerPage => w.done (.page v.1 v.2)

end BufferCache
