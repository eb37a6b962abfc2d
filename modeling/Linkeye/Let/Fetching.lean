import Linkeye.Core.Blocks

/-!
# Block announcements

The loop of `let/fetcher/fetcher.go`.  What other goroutines and the clock
decide is an input of a round: the chain's height and the blocks it holds each
time the loop asks, the announcements that have timed out, the order in which Go
visits a map, the announcement `rand` picks and the block `prque` pops.
-/

set_option autoImplicit false

namespace Linkeye.Let.Fetching

open Std Common.Types Common.Signature Core.Blocks

def maxUncleDist : UInt64 := 7

def maxQueueDist : Int64 := 32

def hashLimit : Int := 256

def blockLimit : Int := 64

structure Announce where
  hash : Hash
  number : UInt64
  header : Option Header
  origin : Bytes
deriving DecidableEq

/-- `inject`.  The fetcher reads nothing but the header of the block. -/
structure Inject where
  origin : Bytes
  block : Header

structure AnnounceStates where
  announces : ExtTreeMap Bytes Int
  announced : ExtTreeMap Hash (List Announce)
  fetching : ExtTreeMap Hash Announce
  fetched : ExtTreeMap Hash (List Announce)
  completing : ExtTreeMap Hash Announce

structure BlockCache where
  /-- The blocks in `prque`, in any order. -/
  queue : List Inject
  queues : ExtTreeMap Bytes Int
  queued : ExtTreeMap Hash Inject
  /-- The imports started by `insert` whose `done` has not been received. -/
  running : List Hash

structure Fetcher where
  states : AnnounceStates
  cache : BlockCache

def Fetcher.init : Fetcher := ⟨⟨∅, ∅, ∅, ∅, ∅⟩, ⟨[], ∅, ∅, []⟩⟩

def decrease (counters : ExtTreeMap Bytes Int) (peer : Bytes) : ExtTreeMap Bytes Int :=
  let count := counters.getD peer 0 - 1
  if count = 0 then counters.erase peer else counters.insert peer count

def AnnounceStates.forgetHash (s : AnnounceStates) (hash : Hash) : AnnounceStates :=
  let forgotten := s.announced.getD hash [] ++ s.fetching[hash]?.toList ++
    s.fetched.getD hash [] ++ s.completing[hash]?.toList
  { announces := forgotten.foldl (fun counters a => decrease counters a.origin) s.announces
    announced := s.announced.erase hash
    fetching := s.fetching.erase hash
    fetched := s.fetched.erase hash
    completing := s.completing.erase hash }

def BlockCache.forgetBlock (c : BlockCache) (hash : Hash) : BlockCache :=
  match c.queued[hash]? with
  | some op => { c with queues := decrease c.queues op.origin, queued := c.queued.erase hash }
  | none => c

/-- The distance check of announcements and blocks, in signed 64-bit arithmetic. -/
def tooFar (number height : UInt64) : Bool :=
  let dist := number.toInt64 - height.toInt64
  dist < -maxUncleDist.toInt64 || maxQueueDist < dist

section
variable (crypto : Crypto)

def Fetcher.enqueue (f : Fetcher) (peer : Bytes) (block : Header) (height : UInt64) : Fetcher :=
  let hash := block.hash crypto
  let count := f.cache.queues.getD peer 0 + 1
  if blockLimit < count then { f with states := f.states.forgetHash hash }
  else if tooFar (.ofNat block.number) height then { f with states := f.states.forgetHash hash }
  else if hash ∈ f.cache.queued then f
  else { f with cache := { f.cache with
    queues := f.cache.queues.insert peer count
    queued := f.cache.queued.insert hash ⟨peer, block⟩
    queue := ⟨peer, block⟩ :: f.cache.queue } }

def AnnounceStates.expire (stale : Announce → Bool) (s : AnnounceStates) : AnnounceStates :=
  (s.fetching.toList.filter fun entry => stale entry.2).foldl (fun s entry => s.forgetHash entry.1) s

/-- The import loop.  Each pop is given with the answer of `getBlock`; a block
that is too high is pushed back and ends the loop. -/
def BlockCache.importQueued (height : UInt64) (c : BlockCache) : List (Nat × Bool) → BlockCache
  | [] => c
  | (i, known) :: pops =>
    match c.queue[i]? with
    | none => c
    | some op =>
      let number := UInt64.ofNat op.block.number
      let hash := op.block.hash crypto
      let popped := { c with queue := c.queue.eraseIdx i }
      if height + 1 < number then c
      else if number + maxUncleDist < height || known then
        (popped.forgetBlock hash).importQueued height pops
      else { popped with running := hash :: popped.running }.importQueued height pops

def AnnounceStates.notify (s : AnnounceStates) (a : Announce) (height : UInt64) : AnnounceStates :=
  let count := s.announces.getD a.origin 0 + 1
  if hashLimit < count then s
  else if 0 < a.number && tooFar a.number height then s
  else if a.hash ∈ s.fetching ∨ a.hash ∈ s.completing then s
  else { s with
    announces := s.announces.insert a.origin count
    announced := s.announced.insert a.hash (s.announced.getD a.hash [] ++ [a]) }

/-- A timed-out hash of the fetch timer: the announcement picked, and the answer
of `getBlock`. -/
def AnnounceStates.startFetch (s : AnnounceStates) : Hash × Nat × Bool → AnnounceStates
  | (hash, i, known) =>
    match (s.announced.getD hash [])[i]? with
    | none => s
    | some announce =>
      let s := s.forgetHash hash
      if known then s else { s with fetching := s.fetching.insert hash announce }

def AnnounceStates.startCompletion (s : AnnounceStates) : Hash × Nat × Bool → AnnounceStates
  | (hash, i, known) =>
    match (s.fetched.getD hash [])[i]? with
    | none => s
    | some announce =>
      let s := s.forgetHash hash
      if known then s else { s with completing := s.completing.insert hash announce }

/-- One header of a delivery, with the answer of `getBlock`: what is found
goes to the headers that need a body or to the complete blocks. -/
def filterHeader (queued : ExtTreeMap Hash Inject) (peer : Bytes) :
    AnnounceStates × List Announce × List Header → Header × Bool →
      AnnounceStates × List Announce × List Header
  | (s, incomplete, complete), (header, known) =>
    let hash := header.hash crypto
    match s.fetching[hash]? with
    | none => (s, incomplete, complete)
    | some announce =>
      if announce.origin = peer ∧ hash ∉ s.fetched ∧ hash ∉ s.completing ∧ hash ∉ queued then
        -- With a wrong number the announcer is dropped as well.
        if UInt64.ofNat header.number ≠ announce.number || known then
          (s.forgetHash hash, incomplete, complete)
        else
          let announce := { announce with header := some header }
          -- The roots of an empty transaction trie and of an empty list of uncles.
          if header.txHash = rlpHash crypto (.bytes []) ∧
              header.uncleHash = rlpHash crypto (.list []) then
            ({ s with completing := s.completing.insert hash announce }, incomplete,
              complete ++ [header])
          else (s, incomplete ++ [announce], complete)
      else (s, incomplete, complete)

def AnnounceStates.scheduleBody (s : AnnounceStates) (a : Announce) : AnnounceStates :=
  match a.header with
  | none => s
  | some header =>
    let hash := header.hash crypto
    if hash ∈ s.completing then s
    else { s with fetched := s.fetched.insert hash (s.fetched.getD hash [] ++ [a]) }

/-- One body of a delivery, by its transaction and uncle roots, against one
announcement that waits for completion. -/
def matchBody (queued : ExtTreeMap Hash Inject) (peer : Bytes) (txHash uncleHash : Hash)
    (known : Hash → Bool) : AnnounceStates × List Header → Hash → AnnounceStates × List Header
  | (s, blocks), hash =>
    match s.completing[hash]? with
    | some ⟨_, _, some header, origin⟩ =>
      if hash ∉ queued ∧ txHash = header.txHash ∧ uncleHash = header.uncleHash ∧
          origin = peer then
        if known hash then (s.forgetHash hash, blocks) else (s, blocks ++ [header])
      else (s, blocks)
    | _ => (s, blocks)

def matchBodies (queued : ExtTreeMap Hash Inject) (peer : Bytes)
    (found : AnnounceStates × List Header) : (Hash × Hash) × (Hash → Bool) →
      AnnounceStates × List Header
  | ((txHash, uncleHash), known) =>
    found.1.completing.keys.foldl (matchBody queued peer txHash uncleHash known) found

def Fetcher.enqueueFound (f : Fetcher) (heights : Nat → UInt64) (blocks : List Header) : Fetcher :=
  blocks.zipIdx.foldl (fun f entry =>
    match f.states.completing[entry.1.hash crypto]? with
    | some announce => f.enqueue crypto announce.origin entry.1 (heights entry.2)
    | none => f) f

inductive Event where
  | notify (a : Announce) (height : UInt64)
  | inject (op : Inject) (height : UInt64)
  | done (hash : Hash)
  | fetchTimer (due : List (Hash × Nat × Bool))
  | completeTimer (due : List (Hash × Nat × Bool))
  | headerFilter (peer : Bytes) (headers : List (Header × Bool)) (heights : Nat → UInt64)
  | bodyFilter (peer : Bytes) (bodies : List ((Hash × Hash) × (Hash → Bool)))
      (heights : Nat → UInt64)

def Fetcher.handle (f : Fetcher) : Event → Fetcher
  | .notify a height => { f with states := f.states.notify a height }
  | .inject op height => f.enqueue crypto op.origin op.block height
  | .done hash =>
    if hash ∈ f.cache.running then
      ⟨f.states.forgetHash hash,
        { f.cache with running := f.cache.running.erase hash }.forgetBlock hash⟩
    else f
  | .fetchTimer due => { f with states := due.foldl AnnounceStates.startFetch f.states }
  | .completeTimer due => { f with states := due.foldl AnnounceStates.startCompletion f.states }
  | .headerFilter peer headers heights =>
    let found := headers.foldl (filterHeader crypto f.cache.queued peer) (f.states, [], [])
    { f with states := found.2.1.foldl (AnnounceStates.scheduleBody crypto) found.1 }.enqueueFound
      crypto heights found.2.2
  | .bodyFilter peer bodies heights =>
    let found := bodies.foldl (matchBodies f.cache.queued peer) (f.states, [])
    { f with states := found.1 }.enqueueFound crypto heights found.2

structure Round where
  stale : Announce → Bool
  height : UInt64
  pops : List (Nat × Bool)
  event : Event

/-- The round up to where the loop waits for an event. -/
def Fetcher.prepare (f : Fetcher) (r : Round) : Fetcher :=
  ⟨f.states.expire r.stale, f.cache.importQueued crypto r.height r.pops⟩

def Fetcher.next (f : Fetcher) (r : Round) : Fetcher := (f.prepare crypto r).handle crypto r.event

def runLoop (rounds : List Round) : Fetcher := rounds.foldl (Fetcher.next crypto) .init

end

end Linkeye.Let.Fetching
