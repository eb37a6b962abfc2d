import Linkeye.Let.Fetching
import Linkeye.Lib.Runs
import Linkeye.Lib.Totals

/-!
# What a peer can have outstanding

The counters `queues` count the blocks in `queued`, in every run of the loop.
The counters `announces` count announcements until the fetch timer takes one up:
`forgetHash` has uncounted it by the time it is put into `fetching`.
-/

set_option autoImplicit false

namespace Linkeye.Let.Limits

open Std Common.Types Common.Signature Core.Blocks Lib Lib.Runs Lib.Totals Fetching

section
variable {counters : ExtTreeMap Bytes Int}

theorem getD_increase (peer p : Bytes) :
    (counters.insert peer (counters.getD peer 0 + 1)).getD p 0 =
      counters.getD p 0 + if peer = p then 1 else 0 := by
  rw [Maps.getD_insert]
  split
  · next same => rw [same]
  · rw [add_zero]

theorem increase_le {limit : Int} {peer : Bytes} (limited : ∀ p, counters.getD p 0 ≤ limit)
    (room : ¬ limit < counters.getD peer 0 + 1) (p : Bytes) :
    (counters.insert peer (counters.getD peer 0 + 1)).getD p 0 ≤ limit := by
  rw [Maps.getD_insert]
  split
  · exact Int.not_lt.mp room
  · exact limited p

theorem getD_decrease (peer p : Bytes) :
    (decrease counters peer).getD p 0 = counters.getD p 0 - if peer = p then 1 else 0 := by
  by_cases same : peer = p
  · subst same
    rw [decrease, if_pos rfl]
    split
    · next zero => rw [ExtTreeMap.getD_erase_self, zero]
    · rw [ExtTreeMap.getD_insert_self]
  · rw [decrease, if_neg same, sub_zero]
    split
    · rw [Maps.getD_erase, if_neg same]
    · rw [Maps.getD_insert, if_neg same]

theorem getD_decrease_all (p : Bytes) (gone : List Announce) :
    (gone.foldl (fun counters a => decrease counters a.origin) counters).getD p 0 =
      counters.getD p 0 - gone.countP (fun a => a.origin = p) := by
  induction gone generalizing counters with
  | nil => simp
  | cons a gone ih =>
    rw [List.foldl_cons, ih, getD_decrease, List.countP_cons]
    simp only [decide_eq_true_eq]
    split <;> omega

end

/-! ## Queued blocks -/

section
variable {crypto : Crypto} {c : BlockCache} {f : Fetcher}

def blocksFrom (p : Bytes) (c : BlockCache) : Nat :=
  weight (fun op => if op.origin = p then 1 else 0) c.queued

/-- A block is recorded from the time it is queued until its import is done. -/
structure Sound (crypto : Crypto) (c : BlockCache) : Prop where
  counted : ∀ p, c.queues.getD p 0 = blocksFrom p c
  limited : ∀ p, c.queues.getD p 0 ≤ blockLimit
  recorded : ∀ op ∈ c.queue, c.queued[op.block.hash crypto]? = some op
  held : ∀ hash ∈ c.running, hash ∈ c.queued
  distinct : (c.queue.map (fun op => op.block.hash crypto) ++ c.running).Nodup

theorem Sound.mem_queued {hash : Hash} (sound : Sound crypto c)
    (busy : hash ∈ c.queue.map (fun op => op.block.hash crypto) ++ c.running) :
    hash ∈ c.queued := by
  rcases List.mem_append.mp busy with waiting | running
  · obtain ⟨op, member, rfl⟩ := List.mem_map.mp waiting
    exact ExtTreeMap.mem_iff_isSome_getElem?.mpr (by rw [sound.recorded op member]; rfl)
  · exact sound.held hash running

theorem Sound.enqueue (peer : Bytes) (block : Header) (height : UInt64)
    (sound : Sound crypto f.cache) : Sound crypto (f.enqueue crypto peer block height).cache := by
  unfold Fetcher.enqueue
  dsimp only
  split_ifs with full far known
  · exact sound
  · exact sound
  · exact sound
  · have absent : f.cache.queued[block.hash crypto]? = none :=
      ExtTreeMap.getElem?_eq_none known
    refine ⟨fun p => ?_, fun p => ?_, ?_, fun hash running => ?_, ?_⟩
    · have others := weight_erase (fun op : Inject => if op.origin = p then 1 else 0)
        f.cache.queued (block.hash crypto)
      have before := sound.counted p
      rw [absent] at others
      simp only [blocksFrom, weight_insert, getD_increase, Option.map_none, Option.getD_none]
        at others before ⊢
      rw [before, others]
      split <;> omega
    · exact increase_le sound.limited full p
    · intro op member
      rw [Maps.get_insert]
      rcases List.mem_cons.mp member with rfl | old
      · exact if_pos rfl
      · rw [if_neg, sound.recorded op old]
        intro same
        exact known (same ▸ sound.mem_queued (List.mem_append_left _ (List.mem_map_of_mem old)))
    · exact ExtTreeMap.mem_insert.mpr (.inr (sound.held hash running))
    · exact List.nodup_cons.mpr ⟨fun busy => known (sound.mem_queued busy), sound.distinct⟩

/-- Forgetting a block that no longer waits or runs. -/
theorem Sound.forgetBlock {queue : List Inject} {running : List Hash} {hash : Hash}
    (sound : Sound crypto c) (waiting : queue ⊆ c.queue) (busy : running ⊆ c.running)
    (distinct : (hash :: (queue.map (fun op => op.block.hash crypto) ++ running)).Nodup) :
    Sound crypto ({ c with queue := queue, running := running }.forgetBlock hash) := by
  obtain ⟨fresh, apart⟩ := List.nodup_cons.mp distinct
  rw [List.mem_append, not_or] at fresh
  unfold BlockCache.forgetBlock
  dsimp only
  cases found : c.queued[hash]? with
  | none =>
    exact ⟨sound.counted, sound.limited, fun op member => sound.recorded op (waiting member),
      fun other member => sound.held other (busy member), apart⟩
  | some op =>
    refine ⟨fun p => ?_, fun p => ?_, fun other member => ?_, fun other member => ?_, apart⟩
    · have others := weight_erase (fun op : Inject => if op.origin = p then 1 else 0)
        c.queued hash
      have before := sound.counted p
      rw [found] at others
      simp only [blocksFrom, getD_decrease, Option.map_some, Option.getD_some] at others before ⊢
      rw [before, others]
      split <;> omega
    · have before := sound.limited p
      rw [getD_decrease]
      split <;> omega
    · rw [Maps.get_erase, if_neg, sound.recorded other (waiting member)]
      rintro rfl
      exact fresh.1 (List.mem_map_of_mem member)
    · refine ExtTreeMap.mem_erase.mpr ⟨fun same => ?_, sound.held other (busy member)⟩
      exact fresh.2 (compare_eq_iff_eq.mp same ▸ member)

theorem Sound.importQueued (height : UInt64) (pops : List (Nat × Bool)) (sound : Sound crypto c) :
    Sound crypto (c.importQueued crypto height pops) := by
  induction pops generalizing c with
  | nil => exact sound
  | cons pop pops ih =>
    obtain ⟨i, known⟩ := pop
    unfold BlockCache.importQueued
    cases popped : c.queue[i]? with
    | none => exact sound
    | some op =>
      obtain ⟨within, rfl⟩ := List.getElem?_eq_some_iff.mp popped
      have moved : (c.queue[i].block.hash crypto ::
          ((c.queue.eraseIdx i).map (fun op => op.block.hash crypto) ++ c.running)).Nodup :=
        (((List.getElem_cons_eraseIdx_perm within).map _).append_right _).nodup_iff.mpr
          sound.distinct
      dsimp only
      split_ifs
      · exact sound
      · exact ih (sound.forgetBlock List.eraseIdx_subset (List.Subset.refl _) moved)
      · refine ih ⟨sound.counted, sound.limited,
          fun op member => sound.recorded op (List.eraseIdx_subset member), ?_,
          List.perm_middle.nodup_iff.mpr moved⟩
        intro hash member
        rcases List.mem_cons.mp member with rfl | old
        · exact sound.mem_queued (List.mem_append_left _
            (List.mem_map_of_mem (List.getElem_mem within)))
        · exact sound.held hash old

theorem Sound.enqueueFound (heights : Nat → UInt64) (blocks : List Header)
    (sound : Sound crypto f.cache) : Sound crypto (f.enqueueFound crypto heights blocks).cache := by
  unfold Fetcher.enqueueFound
  refine List.foldlRecOn (motive := fun f : Fetcher => Sound crypto f.cache) _ _ sound ?_
  intro f kept entry _
  split
  · exact kept.enqueue _ _ _
  · exact kept

theorem Sound.handle (event : Event) (sound : Sound crypto f.cache) :
    Sound crypto (f.handle crypto event).cache := by
  cases event with
  | notify | fetchTimer | completeTimer => exact sound
  | inject op height => exact sound.enqueue _ _ _
  | done hash =>
    unfold Fetcher.handle
    dsimp only
    split_ifs with running
    · refine sound.forgetBlock (List.Subset.refl _) List.erase_subset ?_
      refine (List.perm_middle.symm.trans ?_).nodup_iff.mpr sound.distinct
      exact (List.perm_cons_erase running).symm.append_left _
    · exact sound
  | headerFilter | bodyFilter => exact Sound.enqueueFound _ _ sound

theorem Sound.runLoop (rounds : List Round) : Sound crypto (runLoop crypto rounds).cache := by
  refine List.foldlRecOn (motive := fun f : Fetcher => Sound crypto f.cache) _ _ ?_ ?_
  · exact ⟨fun _ => rfl, fun _ => (by decide : (0 : Int) ≤ blockLimit), nofun, nofun, List.nodup_nil⟩
  · exact fun f kept r _ => (kept.importQueued r.height r.pops).handle r.event

structure QueueLimits (crypto : Crypto) (c : BlockCache) : Prop where
  counted : ∀ p, c.queues.getD p 0 = blocksFrom p c
  limited : ∀ p, c.queues.getD p 0 ≤ blockLimit
  recorded : ∀ op ∈ c.queue, c.queued[op.block.hash crypto]? = some op
  single : c.running.Nodup

theorem Sound.limits (sound : Sound crypto c) : QueueLimits crypto c :=
  ⟨sound.counted, sound.limited, sound.recorded, (List.nodup_append.mp sound.distinct).2.1⟩

/-- After every round, and where the next one waits for an event. -/
theorem queued_blocks_limited (crypto : Crypto) (rounds : List Round) (r : Round) :
    QueueLimits crypto (runLoop crypto rounds).cache ∧
      QueueLimits crypto ((runLoop crypto rounds).prepare crypto r).cache := by
  have reached : Sound crypto (Fetching.runLoop crypto rounds).cache := .runLoop rounds
  exact ⟨reached.limits, (reached.importQueued r.height r.pops).limits⟩

end

/-! ## Announcements -/

section
variable {crypto : Crypto} {s : AnnounceStates} {f : Fetcher}

def heldFrom (p : Bytes) (s : AnnounceStates) : Nat :=
  weight (List.countP fun a => a.origin = p) s.announced +
  weight (fun a => if a.origin = p then 1 else 0) s.fetching +
  weight (List.countP fun a => a.origin = p) s.fetched +
  weight (fun a => if a.origin = p then 1 else 0) s.completing

def Exact (s : AnnounceStates) : Prop :=
  ∀ p, s.announces.getD p 0 = heldFrom p s ∧ s.announces.getD p 0 ≤ hashLimit ∧
    0 ≤ s.announces.getD p 0

def StartsFetch (crypto : Crypto) (f : Fetcher) (r : Round) : Prop :=
  ∃ due, r.event = .fetchTimer due ∧ (f.next crypto r).states.fetching ≠ ∅

/-- The counters count the announcements in `announced`, and nothing went
further than `fetching`. -/
structure Announced (s : AnnounceStates) : Prop where
  counted : ∀ p, s.announces.getD p 0 = weight (List.countP fun a => a.origin = p) s.announced
  limited : ∀ p, s.announces.getD p 0 ≤ hashLimit
  fetching : ∀ hash, hash ∈ s.fetching → s.announced[hash]? = none
  fetched : s.fetched = ∅
  completing : s.completing = ∅

theorem Announced.exact_iff (plain : Announced s) : Exact s ↔ s.fetching = ∅ := by
  have held : ∀ p, heldFrom p s = weight (List.countP fun a => a.origin = p) s.announced +
      weight (fun a => if a.origin = p then 1 else 0) s.fetching := by
    intro p
    rw [heldFrom, plain.fetched, plain.completing]
    rfl
  constructor
  · intro exact
    apply ExtTreeMap.ext_getElem?
    intro hash
    rw [ExtTreeMap.getElem?_empty]
    by_contra some
    obtain ⟨a, found⟩ := Option.ne_none_iff_exists'.mp some
    obtain ⟨equal, _⟩ := exact a.origin
    have others := weight_erase (fun b : Announce => if b.origin = a.origin then 1 else 0)
      s.fetching hash
    rw [found, Option.map_some, Option.getD_some, if_pos rfl] at others
    rw [plain.counted, held, others] at equal
    omega
  · intro none p
    rw [held, none, plain.counted]
    exact ⟨rfl, plain.counted p ▸ plain.limited p, Int.natCast_nonneg _⟩

theorem weight_countP (test : Announce → Bool) (m : ExtTreeMap Hash (List Announce))
    (hash : Hash) : weight (List.countP test) m =
      (m.getD hash []).countP test + weight (List.countP test) (m.erase hash) := by
  rw [weight_erase _ m hash, ExtTreeMap.getD_eq_getD_getElem?]
  cases m[hash]? <;> rfl

theorem Announced.forgetHash {hash : Hash} (plain : Announced s)
    (absent : s.fetching[hash]? = none) : Announced (s.forgetHash hash) := by
  have gone : s.announced.getD hash [] ++ s.fetching[hash]?.toList ++
      s.fetched.getD hash [] ++ s.completing[hash]?.toList = s.announced.getD hash [] := by
    rw [absent, plain.fetched, plain.completing]
    simp
  have count : ∀ p, (s.forgetHash hash).announces.getD p 0 =
      s.announces.getD p 0 - (s.announced.getD hash []).countP (fun a => a.origin = p) := by
    intro p
    rw [AnnounceStates.forgetHash, gone]
    exact getD_decrease_all p _
  refine ⟨fun p => ?_, fun p => ?_, fun other member => ?_, ?_, ?_⟩
  · rw [count, plain.counted, weight_countP _ s.announced hash, Nat.cast_add, add_sub_cancel_left]
    rfl
  · have before := plain.limited p
    rw [count]
    omega
  · rw [AnnounceStates.forgetHash, Maps.get_erase]
    split
    · rfl
    · exact plain.fetching other (ExtTreeMap.mem_of_mem_erase member)
  · rw [AnnounceStates.forgetHash, plain.fetched]
    exact ExtTreeMap.erase_empty
  · rw [AnnounceStates.forgetHash, plain.completing]
    exact ExtTreeMap.erase_empty

theorem Announced.startFetch (due : Hash × Nat × Bool) (plain : Announced s) :
    Announced (s.startFetch due) := by
  obtain ⟨hash, i, known⟩ := due
  unfold AnnounceStates.startFetch
  dsimp only
  split
  · exact plain
  · next announce picked =>
    have apart : s.fetching[hash]? = none := by
      apply ExtTreeMap.getElem?_eq_none
      intro member
      rw [ExtTreeMap.getD_eq_getD_getElem?, plain.fetching hash member] at picked
      cases picked
    have forgotten := plain.forgetHash apart
    split
    · exact forgotten
    · refine ⟨forgotten.counted, forgotten.limited, fun other member => ?_, forgotten.fetched, forgotten.completing⟩
      rcases ExtTreeMap.mem_insert.mp member with same | old
      · rw [← compare_eq_iff_eq.mp same]
        exact ExtTreeMap.getElem?_erase_self
      · exact forgotten.fetching other old

theorem Announced.notify (a : Announce) (height : UInt64) (plain : Announced s)
    (idle : s.fetching = ∅) : Announced (s.notify a height) := by
  unfold AnnounceStates.notify
  dsimp only
  split_ifs with full
  · exact plain
  · exact plain
  · exact plain
  · refine ⟨fun p => ?_, fun p => ?_, ?_, plain.fetched, plain.completing⟩
    · rw [getD_increase, plain.counted, weight_insert, List.countP_append, List.countP_singleton,
        weight_countP _ s.announced a.hash]
      simp only [decide_eq_true_eq]
      split <;> omega
    · exact increase_le plain.limited full p
    · rw [idle]
      exact fun hash member => absurd member ExtTreeMap.not_mem_empty

structure Quiet (s : AnnounceStates) : Prop extends Announced s where
  idle : s.fetching = ∅

theorem Quiet.forgetHash (hash : Hash) (quiet : Quiet s) : Quiet (s.forgetHash hash) := by
  refine ⟨quiet.toAnnounced.forgetHash ?_, ?_⟩
  · rw [quiet.idle, ExtTreeMap.getElem?_empty]
  · rw [AnnounceStates.forgetHash, quiet.idle]
    exact ExtTreeMap.erase_empty

theorem Quiet.enqueue (peer : Bytes) (block : Header) (height : UInt64)
    (quiet : Quiet f.states) : Quiet (f.enqueue crypto peer block height).states := by
  unfold Fetcher.enqueue
  dsimp only
  split_ifs
  · exact quiet.forgetHash _
  · exact quiet.forgetHash _
  · exact quiet
  · exact quiet

theorem Quiet.matchBodies (queued : ExtTreeMap Hash Inject) (peer : Bytes)
    (bodies : List ((Hash × Hash) × (Hash → Bool))) (quiet : Quiet s) :
    bodies.foldl (matchBodies queued peer) (s, []) = (s, []) := by
  refine List.foldl_fixed' (fun body => ?_) bodies
  rw [Fetching.matchBodies, quiet.completing]
  rfl

theorem Quiet.startCompletions (due : List (Hash × Nat × Bool)) (quiet : Quiet s) :
    due.foldl AnnounceStates.startCompletion s = s := by
  refine List.foldl_fixed' (fun first => ?_) due
  rw [AnnounceStates.startCompletion, quiet.fetched]
  rfl

theorem Quiet.prepare (r : Round) (quiet : Quiet f.states) :
    (f.prepare crypto r).states = f.states := by
  rw [Fetcher.prepare, AnnounceStates.expire, quiet.idle]
  rfl

theorem Quiet.handle (event : Event) (quiet : Quiet f.states) :
    Announced (f.handle crypto event).states ∧
      ((∀ due, event ≠ .fetchTimer due) → Quiet (f.handle crypto event).states) := by
  cases event with
  | fetchTimer due =>
    refine ⟨?_, fun other => absurd rfl (other due)⟩
    exact List.foldlRecOn (motive := Announced) _ _ quiet.toAnnounced
      fun _ kept first _ => kept.startFetch first
  | notify a height =>
    have plain := quiet.toAnnounced.notify a height quiet.idle
    refine ⟨plain, fun _ => ⟨plain, ?_⟩⟩
    simp only [Fetcher.handle, AnnounceStates.notify]
    split_ifs <;> exact quiet.idle
  | inject op height =>
    have kept : Quiet (f.enqueue crypto op.origin op.block height).states := quiet.enqueue ..
    exact ⟨kept.toAnnounced, fun _ => kept⟩
  | done hash =>
    unfold Fetcher.handle
    dsimp only
    split
    · exact ⟨(quiet.forgetHash hash).toAnnounced, fun _ => quiet.forgetHash hash⟩
    · exact ⟨quiet.toAnnounced, fun _ => quiet⟩
  | completeTimer due =>
    rw [Fetcher.handle, quiet.startCompletions]
    exact ⟨quiet.toAnnounced, fun _ => quiet⟩
  | headerFilter peer headers heights =>
    rw [Fetcher.handle, List.foldl_fixed' (fun header => ?_) headers]
    · exact ⟨quiet.toAnnounced, fun _ => quiet⟩
    · simp only [filterHeader, quiet.idle, ExtTreeMap.getElem?_empty]
  | bodyFilter peer bodies heights =>
    rw [Fetcher.handle, quiet.matchBodies]
    exact ⟨quiet.toAnnounced, fun _ => quiet⟩

/-- A round keeps the counters right exactly if it queues nothing for fetching. -/
theorem Quiet.next {r : Round} (quiet : Quiet f.states) :
    (Exact (f.next crypto r).states ↔ ¬ StartsFetch crypto f r) ∧
      (¬ StartsFetch crypto f r → Quiet (f.next crypto r).states) := by
  have waiting : Quiet (f.prepare crypto r).states := (quiet.prepare r).symm ▸ quiet
  obtain ⟨plain, kept⟩ := @Quiet.handle crypto _ r.event waiting
  have idle : (f.next crypto r).states.fetching = ∅ ↔ ¬ StartsFetch crypto f r := by
    constructor
    · rintro idle ⟨_, _, started⟩
      exact started idle
    · intro never
      by_contra started
      by_cases timer : ∃ due, r.event = .fetchTimer due
      · obtain ⟨due, event⟩ := timer
        exact never ⟨due, event, started⟩
      · exact started (kept fun due event => timer ⟨due, event⟩).idle
  exact ⟨plain.exact_iff.trans idle, fun never => ⟨plain, idle.mpr never⟩⟩

/-- The counters are right throughout a run exactly if the fetch timer never
queues an announcement for fetching. -/
theorem announces_exact_iff (crypto : Crypto) (rounds : List Round) :
    (∀ k, Exact (runLoop crypto (rounds.take k)).states) ↔
      Never (Fetcher.next crypto) (StartsFetch crypto) .init rounds := by
  have general : ∀ f : Fetcher, Quiet f.states →
      ((∀ k, Exact ((rounds.take k).foldl (Fetcher.next crypto) f).states) ↔
        Never (Fetcher.next crypto) (StartsFetch crypto) f rounds) := by
    induction rounds with
    | nil =>
      intro f quiet
      refine iff_of_true (fun k => ?_) trivial
      rw [List.take_nil]
      exact quiet.exact_iff.mpr quiet.idle
    | cons r rounds ih =>
      intro f quiet
      obtain ⟨first, kept⟩ := @Quiet.next crypto f r quiet
      constructor
      · intro exact
        have never := first.mp (exact 1)
        exact ⟨never, (ih _ (kept never)).mp fun k => exact (k + 1)⟩
      · rintro ⟨never, later⟩ k
        cases k with
        | zero => exact quiet.exact_iff.mpr quiet.idle
        | succ k => exact (ih _ (kept never)).mpr later k
  refine general .init ⟨⟨fun _ => rfl, ?_, ?_, rfl, rfl⟩, rfl⟩
  · exact fun _ => (by decide : (0 : Int) ≤ hashLimit)
  · exact fun hash member => absurd member ExtTreeMap.not_mem_empty

def lateRounds : List Round :=
  [⟨fun _ => false, 0, [], .notify ⟨.zero 32, 1, none, [1]⟩ 0⟩,
    ⟨fun _ => false, 0, [], .fetchTimer [(.zero 32, 0, false)]⟩,
    ⟨fun _ => true, 0, [], .fetchTimer []⟩]

/-- The announcement under way is not counted, and forgetting it makes the
counter negative. -/
theorem late_announces :
    ¬ Exact (runLoop plainCrypto (lateRounds.take 2)).states ∧
      (runLoop plainCrypto lateRounds).states.announces.getD [1] 0 = -1 := by
  refine ⟨fun exact => ?_, rfl⟩
  have counted : (0 : Int) = (1 : Nat) := (exact [1]).1
  omega

end

end Linkeye.Let.Limits
