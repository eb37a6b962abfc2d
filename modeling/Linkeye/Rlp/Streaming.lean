import Linkeye.Rlp.Buffer
import Linkeye.Rlp.Canonical

/-!
# The decoder's stream

`Stream` of `rlp/decode.go` reads a value piece by piece: the bytes that are left, a
stack of the lists it is in, and the kind of the value ahead, which is read once and
remembered.  Decoding into an `interface{}` through the stream accepts the same
input as reading the value from the front of the slice.
-/

set_option autoImplicit false

namespace Linkeye.Rlp.Streaming

open Common.Types Encode

/-- `Kind` of `rlp/decode.go`. -/
inductive Kind where
  | byte
  | string
  | list

inductive StreamError where
  | eof
  /-- The end of the innermost list. -/
  | eol
  | unexpectedEOF
  | expectedString
  | expectedList
  | canonSize
  | elemTooLarge
  | valueTooLarge
  | moreThanOneValue
  | notInList
  | notAtEOL
  /-- The steps that the caller allowed for were not enough. -/
  | endless
deriving DecidableEq

structure Listpos where
  pos : Nat
  size : Nat

/-- `Stream`; the innermost list stands first on the stack, and no kind ahead is
`kind = -1`. -/
structure Stream where
  r : Bytes
  remaining : Nat
  limited : Bool
  kind : Option Kind
  size : Nat
  byteval : UInt8
  kinderr : Option StreamError
  stack : List Listpos

/-- What an operation returns beside the stream it leaves. -/
abbrev Reading (α : Type) := Except StreamError α × Stream

namespace Stream

def left (tos : Listpos) : Nat := tos.size - tos.pos

def spend (s : Stream) (n : Nat) : Reading Unit :=
  if s.limited = true then
    if s.remaining < n then (.error .valueTooLarge, s)
    else (.ok (), { s with remaining := s.remaining - n })
  else (.ok (), s)

def willRead (s : Stream) (n : Nat) : Reading Unit :=
  let s := { s with kind := none }
  match s.stack with
  | [] => s.spend n
  | tos :: outer =>
    if left tos < n then (.error .elemTooLarge, s)
    else { s with stack := { tos with pos := tos.pos + n } :: outer }.spend n

def readFull (s : Stream) (n : Nat) : Reading Bytes :=
  match s.willRead n with
  | (.error e, s) => (.error e, s)
  | (.ok (), s) =>
    if s.r.length < n then (.error .unexpectedEOF, { s with r := [] })
    else (.ok (s.r.take n), { s with r := s.r.drop n })

def readByte (s : Stream) : Reading UInt8 :=
  match s.willRead 1 with
  | (.error e, s) => (.error e, s)
  | (.ok (), s) =>
    match s.r with
    | [] => (.error .unexpectedEOF, s)
    | b :: rest => (.ok b, { s with r := rest })

def readUint (s : Stream) (size : Nat) : Reading Nat :=
  match size with
  | 0 => (.ok 0, { s with kind := none })
  | 1 =>
    match s.readByte with
    | (.error e, s) => (.error e, s)
    | (.ok b, s) => (.ok b.toNat, s)
  | size =>
    match s.readFull size with
    | (.error e, s) => (.error e, s)
    | (.ok b, s) => if b.head? = some 0 then (.error .canonSize, s) else (.ok (bigSetBytes b), s)

/-- A size of its own behind the tag; the kind is known also where the size is not. -/
def readLongKind (s : Stream) (kind : Kind) (slen : Nat) : (Kind × Nat × Option StreamError) × Stream :=
  match s.readUint slen with
  | (.error e, s) => ((kind, 0, some e), s)
  | (.ok size, s) => ((kind, size, if size < 56 then some .canonSize else none), s)

def readKind (s : Stream) : (Kind × Nat × Option StreamError) × Stream :=
  match s.readByte with
  | (.error e, s) =>
    let e := if s.stack.isEmpty = true ∧ (e = .unexpectedEOF ∨ e = .valueTooLarge) then .eof else e
    ((.byte, 0, some e), s)
  | (.ok b, s) =>
    if b < 0x80 then ((.byte, 0, none), { s with byteval := b })
    else
      let s := { s with byteval := 0 }
      if b < 0xB8 then ((.string, b.toNat - 0x80, none), s)
      else if b < 0xC0 then s.readLongKind .string (b.toNat - 0xB7)
      else if b < 0xF8 then ((.list, b.toNat - 0xC0, none), s)
      else s.readLongKind .list (b.toNat - 0xF7)

/-- The checks of `Kind` on the size of a value that was read. -/
def sizeError (s : Stream) (size : Nat) : Option StreamError :=
  match s.stack with
  | [] => if s.limited = true ∧ s.remaining < size then some .valueTooLarge else none
  | tos :: _ => if left tos < size then some .elemTooLarge else none

/-- `Kind`: an error stays until the kind is read anew. -/
def kindAhead (s : Stream) : Reading (Kind × Nat) :=
  match s.kind with
  | some kind =>
    match s.kinderr with
    | some e => (.error e, s)
    | none => (.ok (kind, s.size), s)
  | none =>
    let s := { s with kinderr := none }
    if (s.stack.head?.any fun tos => decide (tos.pos = tos.size)) = true then (.error .eol, s)
    else
      match s.readKind with
      | ((kind, size, some e), s) =>
        (.error e, { s with kind := some kind, size := size, kinderr := some e })
      | ((kind, size, none), s) =>
        let s := { s with kind := some kind, size := size }
        match s.sizeError size with
        | some e => (.error e, { s with kinderr := some e })
        | none => (.ok (kind, size), { s with kinderr := none })

def bytes (s : Stream) : Reading Bytes :=
  match s.kindAhead with
  | (.error e, s) => (.error e, s)
  | (.ok (.byte, _), s) => (.ok [s.byteval], { s with kind := none })
  | (.ok (.string, size), s) =>
    match s.readFull size with
    | (.error e, s) => (.error e, s)
    | (.ok b, s) =>
      if size = 1 ∧ (b.head?.any fun x => decide (x < 128)) = true then (.error .canonSize, s)
      else (.ok b, s)
  | (.ok (.list, _), s) => (.error .expectedString, s)

def list (s : Stream) : Reading Nat :=
  match s.kindAhead with
  | (.error e, s) => (.error e, s)
  | (.ok (.list, size), s) =>
    (.ok size, { s with stack := ⟨0, size⟩ :: s.stack, kind := none, size := 0 })
  | (.ok _, s) => (.error .expectedList, s)

def listEnd (s : Stream) : Reading Unit :=
  match s.stack with
  | [] => (.error .notInList, s)
  | tos :: outer =>
    if tos.pos ≠ tos.size then (.error .notAtEOL, s)
    else
      let outer := match outer with
        | [] => []
        | next :: others => { next with pos := next.pos + tos.size } :: others
      (.ok (), { s with stack := outer, kind := none, size := 0 })

mutual
/-- `decodeInterface`, with at most `fuel` values inside or behind one another. -/
def decodeInterface : Nat → Stream → Reading Item
  | 0, s => (.error .endless, s)
  | fuel + 1, s =>
    match s.kindAhead with
    | (.error e, s) => (.error e, s)
    | (.ok (.list, _), s) =>
      -- `decodeListSlice`
      match s.list with
      | (.error e, s) => (.error e, s)
      | (.ok size, s) =>
        match (if size = 0 then (.ok [], s) else decodeSliceElems fuel s) with
        | (.error e, s) => (.error e, s)
        | (.ok items, s) =>
          match s.listEnd with
          | (.error e, s) => (.error e, s)
          | (.ok (), s) => (.ok (.list items), s)
    | (.ok _, s) =>
      match s.bytes with
      | (.error e, s) => (.error e, s)
      | (.ok b, s) => (.ok (.bytes b), s)
def decodeSliceElems : Nat → Stream → Reading (List Item)
  | 0, s => (.error .endless, s)
  | fuel + 1, s =>
    match decodeInterface fuel s with
    | (.error .eol, s) => (.ok [], s)
    | (.error e, s) => (.error e, s)
    | (.ok item, s) =>
      match decodeSliceElems fuel s with
      | (.error e, s) => (.error e, s)
      | (.ok items, s) => (.ok (item :: items), s)
end

end Stream

def newStream (b : Bytes) : Stream where
  r := b
  remaining := b.length
  limited := true
  kind := none
  size := 0
  byteval := 0
  kinderr := none
  stack := []

def decodeBytes (b : Bytes) : Except StreamError Item :=
  match Stream.decodeInterface (2 * b.length + 4) (newStream b) with
  | (.error e, _) => .error e
  | (.ok v, s) => if s.r = [] then .ok v else .error .moreThanOneValue

/-! ## Reading from the front -/

variable {rest : Bytes} {size : Nat} {k : Decode.Kind}

namespace Stream

def advance (n : Nat) : List Listpos → List Listpos
  | [] => []
  | tos :: outer => { tos with pos := tos.pos + n } :: outer

/-- The bytes that the next value may take. -/
def avail (s : Stream) : Bytes :=
  match s.stack with
  | [] => s.r
  | tos :: _ => s.r.take (left tos)

/-- The counters agree with the input, and the innermost list lies inside it. -/
def Ready (s : Stream) : Prop :=
  s.limited = true ∧ s.remaining = s.r.length ∧
    ∀ tos outer, s.stack = tos :: outer → tos.pos ≤ tos.size ∧ left tos ≤ s.r.length

/-- The stream `n` bytes later, whatever it remembers of the last kind. -/
def After (s : Stream) (n : Nat) (s' : Stream) : Prop :=
  s'.r = s.r.drop n ∧ s'.remaining = s.remaining - n ∧ s'.limited = s.limited ∧
    s'.stack = advance n s.stack

section Front
variable {s s' : Stream} {n : Nat}

theorem length_avail_le (s : Stream) : (avail s).length ≤ s.r.length := by
  rw [avail]
  split
  · exact le_refl _
  · rw [List.length_take]
    exact Nat.min_le_right _ _

theorem Ready.left_eq (ready : Ready s) {tos : Listpos} {outer : List Listpos}
    (top : s.stack = tos :: outer) : left tos = (avail s).length := by
  obtain ⟨_, inside⟩ := ready.2.2 tos outer top
  rw [avail, top, List.length_take, Nat.min_eq_left inside]

theorem Ready.atEnd_iff (ready : Ready s) :
    (s.stack.head?.any fun tos => decide (tos.pos = tos.size)) = true ↔
      s.stack ≠ [] ∧ avail s = [] := by
  cases top : s.stack with
  | nil => simp
  | cons tos outer =>
    obtain ⟨within, _⟩ := ready.2.2 tos outer top
    have rest := ready.left_eq top
    rw [left] at rest
    rw [← List.length_eq_zero_iff, ← rest]
    simp
    omega

theorem After.avail (after : After s n s') : avail s' = (avail s).drop n := by
  obtain ⟨input, _, _, stack⟩ := after
  rw [Stream.avail, Stream.avail, stack, input]
  cases top : s.stack with
  | nil => rfl
  | cons tos outer =>
    rw [advance]
    dsimp only
    rw [List.drop_take, left, left, Nat.sub_sub]

theorem After.ready (ready : Ready s) (after : After s n s') (enough : n ≤ (Stream.avail s).length) :
    Ready s' := by
  obtain ⟨input, remaining, limited, stack⟩ := after
  refine ⟨limited.trans ready.1, ?_, ?_⟩
  · rw [remaining, input, List.length_drop, ready.2.1]
  · intro tos outer top
    cases old : s.stack with
    | nil =>
      rw [stack, old] at top
      cases top
    | cons tos' outer' =>
      rw [stack, old, advance] at top
      cases top
      have rest := ready.left_eq old
      obtain ⟨within, inside⟩ := ready.2.2 tos' _ old
      rw [input, List.length_drop]
      rw [left] at rest inside ⊢
      dsimp only
      omega

theorem After.trans {m : Nat} {s'' : Stream} (first : After s n s') (second : After s' m s'') :
    After s (n + m) s'' := by
  obtain ⟨input, remaining, limited, stack⟩ := first
  obtain ⟨input', remaining', limited', stack'⟩ := second
  refine ⟨by rw [input', input, List.drop_drop], by rw [remaining', remaining]; omega,
    limited'.trans limited, ?_⟩
  rw [stack', stack]
  cases s.stack with
  | nil => rfl
  | cons tos outer => simp [advance, Nat.add_assoc]

theorem After.refl (s : Stream) : After s 0 s := by
  refine ⟨rfl, rfl, rfl, ?_⟩
  cases s.stack <;> simp [advance]

theorem After.stack_ne (after : After s n s') (inside : s.stack ≠ []) : s'.stack ≠ [] := by
  rw [after.2.2.2]
  cases top : s.stack with
  | nil => exact absurd top inside
  | cons tos outer => simp [advance]

section
variable (ready : Ready s)
include ready

/-- `willRead` lets through what is available and nothing else. -/
theorem willRead_eq (enough : n ≤ (avail s).length) :
    s.willRead n = (.ok (),
      { s with kind := none, remaining := s.remaining - n, stack := advance n s.stack }) := by
  have limited := ready.1
  have remaining := ready.2.1
  have short := length_avail_le s
  rw [willRead]
  cases top : s.stack with
  | nil =>
    rw [spend, if_pos limited, if_neg (by dsimp only; omega)]
    simp [advance]
  | cons tos outer =>
    have rest := ready.left_eq top
    dsimp only
    rw [if_neg (by omega), spend, if_pos limited, if_neg (by dsimp only; omega)]
    simp [advance]

theorem willRead_error (short : (avail s).length < n) :
    ∃ e s', s.willRead n = (.error e, s') ∧ e ≠ .eol := by
  rw [willRead]
  cases top : s.stack with
  | nil =>
    have below : s.remaining < n := by
      rw [avail, top] at short
      rw [ready.2.1]
      exact short
    rw [spend, if_pos ready.1, if_pos below]
    exact ⟨_, _, rfl, by simp⟩
  | cons tos outer =>
    have rest := ready.left_eq top
    dsimp only
    rw [if_pos (by omega)]
    exact ⟨_, _, rfl, by simp⟩

/-- A reading does what reading from the front does: it takes the same bytes, or it fails
for another reason than the end of a list. -/
def Agrees {α : Type} (s : Stream) (front : Option (α × Bytes)) (reading : Reading α) : Prop :=
  match front with
  | some (a, rest) => ∃ n s', reading = (.ok a, s') ∧ n ≤ (avail s).length ∧ After s n s' ∧
      s'.kind = none ∧ rest = (avail s).drop n
  | none => ∃ e s', reading = (.error e, s') ∧ e ≠ .eol

theorem readFull_agrees :
    Agrees s (if (avail s).length < n then none else some ((avail s).take n, (avail s).drop n))
      (s.readFull n) := by
  split
  · rename_i short
    obtain ⟨e, s', fails, other⟩ := willRead_error ready short
    rw [readFull, fails]
    exact ⟨e, s', rfl, other⟩
  · rename_i long
    have enough := not_lt.mp long
    have short := length_avail_le s
    have front : s.r.take n = (avail s).take n := by
      rw [avail] at enough ⊢
      split
      · rfl
      · rename_i top
        rw [top, List.length_take] at enough
        rw [List.take_take, Nat.min_eq_left (by omega)]
    rw [readFull, willRead_eq ready enough]
    dsimp only
    rw [if_neg (by omega), front]
    exact ⟨n, _, rfl, enough, ⟨rfl, rfl, rfl, rfl⟩, rfl, rfl⟩

theorem readByte_agrees : Agrees s ((avail s).head?.map fun b => (b, (avail s).drop 1)) s.readByte := by
  cases front : avail s with
  | nil =>
    obtain ⟨e, s', fails, other⟩ := willRead_error (n := 1) ready (by rw [front]; simp)
    rw [readByte, fails]
    exact ⟨e, s', rfl, other⟩
  | cons b rest =>
    have enough : 1 ≤ (avail s).length := by rw [front]; simp
    obtain ⟨more, input⟩ : ∃ more, s.r = b :: more := by
      have first := congrArg List.head? front
      rw [avail] at first
      split at first
      · exact ⟨_, List.eq_cons_of_mem_head? first⟩
      · rw [List.head?_take] at first
        split at first
        · cases first
        · exact ⟨_, List.eq_cons_of_mem_head? first⟩
    rw [readByte, willRead_eq ready enough]
    rw [input]
    exact ⟨1, _, rfl, enough, ⟨by rw [input]; rfl, rfl, rfl, rfl⟩, rfl, by rw [front]⟩

/-- The sizes behind a tag are those that `readUint` finds at the front. -/
theorem readUint_agrees (positive : 0 < n) :
    Agrees s (Decode.readUint n (avail s)) (s.readUint n) := by
  match n, positive with
  | 1, _ =>
    have byte := readByte_agrees ready
    rw [Decode.readUint, readUint]
    cases front : avail s with
    | nil =>
      rw [front] at byte
      obtain ⟨e, s', fails, other⟩ := byte
      rw [fails]
      exact ⟨e, s', rfl, other⟩
    | cons b rest =>
      rw [front] at byte
      obtain ⟨m, s', took, enough, after, armed, dropped⟩ := byte
      rw [took, if_neg (by simp), if_neg (by omega)]
      exact ⟨m, s', by simp [bigSetBytes], enough, after, armed, dropped⟩
  | m + 2, _ =>
    have full := readFull_agrees (n := m + 2) ready
    have head : ((avail s).take (m + 2)).head? = (avail s).head? := by
      cases avail s <;> rfl
    rw [Decode.readUint, readUint]
    · split at full
      · rename_i short
        obtain ⟨e, s', fails, other⟩ := full
        rw [if_pos short, fails]
        exact ⟨e, s', rfl, other⟩
      · rename_i long
        obtain ⟨k, s', took, enough, after, armed, dropped⟩ := full
        rw [if_neg long, took]
        dsimp only
        rw [head]
        by_cases zero : (avail s).head? = some 0
        · rw [if_pos ⟨by omega, zero⟩, if_pos zero]
          exact ⟨_, s', rfl, by simp⟩
        · rw [if_neg fun both => zero both.2, if_neg zero]
          exact ⟨k, s', rfl, enough, after, armed, dropped⟩
    · omega
    · omega

end

/-! ## The kind ahead -/

/-- The kind and the size that the stream reports for what stands at the front. -/
def tag : Decode.Kind → Kind
  | .byte _ => .byte
  | .string _ => .string
  | .list _ => .list

def contentSize : Decode.Kind → Nat
  | .byte _ => 0
  | .string size => size
  | .list size => size

/-- A kind is reported as it stands at the front. -/
def Tells (s : Stream) (front : Option (Decode.Kind × Bytes))
    (told : (Kind × Nat × Option StreamError) × Stream) : Prop :=
  match front with
  | some (k, rest) => ∃ m s', told = ((tag k, contentSize k, none), s') ∧ m ≤ (avail s).length ∧
      After s m s' ∧ (∀ v, k = .byte v → s'.byteval = v) ∧ rest = (avail s).drop m
  | none => ∃ k size e s', told = ((k, size, some e), s') ∧ e ≠ .eol

theorem Tells.behind {front : Option (Decode.Kind × Bytes)}
    {told : (Kind × Nat × Option StreamError) × Stream} (tells : Tells s' front told)
    (after : After s n s') (enough : n ≤ (avail s).length) : Tells s front told := by
  match front, tells with
  | none, failed => exact failed
  | some (k, rest), ⟨m, t, same, bound, later, byte, dropped⟩ =>
    rw [after.avail, List.length_drop] at bound
    rw [after.avail, List.drop_drop] at dropped
    exact ⟨n + m, t, same, by omega, after.trans later, byte, dropped⟩

/-- A long tag goes on with the size bytes. -/
theorem readLongKind_tells (ready : Ready s) (positive : 0 < n) {kind : Kind}
    {make : Nat → Decode.Kind} (shape : ∀ size, tag (make size) = kind ∧
      contentSize (make size) = size ∧ ∀ v, make size ≠ .byte v) :
    Tells s ((Decode.readLongSize n (avail s)).map fun sized => (make sized.1, sized.2))
      (s.readLongKind kind n) := by
  have uint := readUint_agrees ready positive
  rw [Decode.readLongSize, readLongKind]
  cases read : Decode.readUint n (avail s) with
  | none =>
    rw [read] at uint
    obtain ⟨e, s', fails, other⟩ := uint
    rw [fails]
    exact ⟨kind, 0, e, s', rfl, other⟩
  | some found =>
    obtain ⟨value, rest⟩ := found
    rw [read] at uint
    obtain ⟨m, s', took, enough, after, _, dropped⟩ := uint
    rw [took]
    dsimp only
    split
    · exact ⟨kind, value, _, s', rfl, by simp⟩
    · obtain ⟨named, counted, noByte⟩ := shape value
      refine ⟨m, s', ?_, enough, after, fun v same => absurd same (noByte v), dropped⟩
      rw [named, counted]

theorem readKind_tells (ready : Ready s) : Tells s (Decode.readKind (avail s)) s.readKind := by
  have byte := readByte_agrees ready
  rw [readKind]
  cases front : avail s with
  | nil =>
    rw [front] at byte
    obtain ⟨e, s', fails, other⟩ := byte
    rw [fails]
    refine ⟨_, _, _, s', rfl, ?_⟩
    split
    · simp
    · exact other
  | cons b more =>
    rw [front] at byte
    obtain ⟨m, s', took, enough, after, _, dropped⟩ := byte
    have ready' : Ready s' := after.ready ready enough
    have behind : avail s' = more := by rw [after.avail, ← dropped]; rfl
    have long : ∀ (kind : Kind) (make : Nat → Decode.Kind) (slen : Nat), 0 < slen →
        (∀ size, tag (make size) = kind ∧ contentSize (make size) = size ∧
          ∀ v, make size ≠ .byte v) →
        Tells s ((Decode.readLongSize slen more).map fun sized => (make sized.1, sized.2))
          (readLongKind { s' with byteval := 0 } kind slen) := by
      intro kind make slen positive shape
      rw [← behind]
      exact (readLongKind_tells (s := { s' with byteval := 0 }) ready' positive shape).behind
        after enough
    rw [Decode.readKind, took]
    dsimp only
    split
    · exact ⟨m, { s' with byteval := b }, rfl, enough, after, fun v same => by cases same; rfl,
        dropped⟩
    · split
      · exact ⟨m, { s' with byteval := 0 }, rfl, enough, after, by simp, dropped⟩
      · rename_i notString
        simp only [UInt8.lt_iff_toNat_lt, UInt8.reduceToNat] at notString
        split
        · refine long .string .string _ ?_ ?_
          · omega
          · simp [tag, contentSize]
        · split
          · exact ⟨m, { s' with byteval := 0 }, rfl, enough, after, by simp, dropped⟩
          · rename_i notList
            simp only [UInt8.lt_iff_toNat_lt, UInt8.reduceToNat] at notList
            refine long .list .list _ ?_ ?_
            · omega
            · simp [tag, contentSize]

/-- What the stream knows after a kind was read. -/
def Ahead (s : Stream) (k : Decode.Kind) : Prop :=
  s.kind = some (tag k) ∧ s.size = contentSize k ∧ s.kinderr = none ∧
    ∀ v, k = .byte v → s.byteval = v

theorem Ahead.kindAhead (ahead : Ahead s k) :
    s.kindAhead = (.ok (tag k, contentSize k), s) := by
  obtain ⟨kind, size, clean, _⟩ := ahead
  rw [Stream.kindAhead, kind, clean]
  rw [size]

/-- The checks on the size of a value are for what is available. -/
theorem sizeError_iff (ready : Ready s) : s.sizeError size = none ↔ size ≤ (avail s).length := by
  rw [sizeError]
  cases top : s.stack with
  | nil =>
    rw [avail, top]
    simp [ready.1, ready.2.1]
  | cons tos outer =>
    rw [← ready.left_eq top]
    simp

theorem sizeError_ne_eol (s : Stream) (size : Nat) : s.sizeError size ≠ some .eol := by
  rw [sizeError]
  split <;> split <;> simp

/-- Where a value has to stand, its kind is read if its content is there. -/
theorem kindAhead_cases (ready : Ready s) (armed : s.kind = none)
    (more : ¬ (s.stack ≠ [] ∧ avail s = [])) :
    (∃ k m s', Decode.readKind (avail s) = some (k, (avail s).drop m) ∧ m ≤ (avail s).length ∧
      After s m s' ∧ Ready s' ∧ Ahead s' k ∧ contentSize k ≤ (avail s').length ∧
      s.kindAhead = (.ok (tag k, contentSize k), s')) ∨
    ((∀ k rest, Decode.readKind (avail s) = some (k, rest) → rest.length < contentSize k) ∧
      ∃ e s', s.kindAhead = (.error e, s') ∧ e ≠ .eol) := by
  have tells := readKind_tells (s := { s with kind := none, kinderr := none }) ready
  rw [kindAhead, armed]
  rw [if_neg fun done => more (ready.atEnd_iff.mp done)]
  change Tells s (Decode.readKind (avail s)) _ at tells
  cases read : Decode.readKind (avail s) with
  | none =>
    rw [read] at tells
    obtain ⟨k, size, e, s', told, other⟩ := tells
    rw [told]
    exact .inr ⟨by simp, e, _, rfl, other⟩
  | some found =>
    obtain ⟨k, rest⟩ := found
    rw [read] at tells
    obtain ⟨m, s', told, enough, after, byte, rfl⟩ := tells
    have ready' : Ready { s' with kind := some (tag k), size := contentSize k } :=
      after.ready ready enough
    have content : avail { s' with kind := some (tag k), size := contentSize k } =
        (avail s).drop m := after.avail
    rw [told]
    dsimp only
    cases checked : sizeError { s' with kind := some (tag k), size := contentSize k }
        (contentSize k) with
    | none =>
      exact .inl ⟨k, m, { s' with kind := some (tag k), size := contentSize k, kinderr := none },
        rfl, enough, after, ready', ⟨rfl, rfl, rfl, byte⟩, (sizeError_iff ready').mp checked, rfl⟩
    | some e =>
      refine .inr ⟨?_, e, _, rfl, ?_⟩
      · rintro k' rest' same
        cases same
        rw [← content, ← not_le, ← sizeError_iff ready', checked]
        simp
      · rintro rfl
        exact sizeError_ne_eol _ _ checked

/-! ## Strings and lists -/

theorem bytes_of_byte {v : UInt8} (ahead : Ahead s (.byte v)) :
    ∃ s', s.bytes = (.ok [v], s') ∧ After s 0 s' ∧ s'.kind = none := by
  rw [bytes, ahead.kindAhead]
  have value := ahead.2.2.2 v rfl
  exact ⟨{ s with kind := none }, by simp [tag, value], After.refl s, rfl⟩

theorem bytes_of_string (ready : Ready s) (ahead : Ahead s (.string size)) :
    Agrees s (Decode.readString size (avail s)) s.bytes := by
  have full := readFull_agrees (n := size) ready
  rw [bytes, ahead.kindAhead, Decode.readString]
  dsimp only [tag, contentSize]
  split at full
  · rename_i short
    obtain ⟨e, s', fails, other⟩ := full
    rw [if_pos short, fails]
    exact ⟨e, s', rfl, other⟩
  · rename_i long
    obtain ⟨m, s', took, enough, after, armed, dropped⟩ := full
    have head : size = 1 → ((avail s).take size).head? = (avail s).head? := by
      rintro rfl
      cases avail s <;> rfl
    rw [if_neg long, took]
    dsimp only
    by_cases single : size = 1 ∧ ((avail s).head?.any fun b => decide (b < 0x80)) = true
    · rw [if_pos single]
      obtain ⟨one, small⟩ := single
      rw [if_pos ⟨one, by rw [head one]; exact small⟩]
      exact ⟨_, s', rfl, by simp⟩
    · rw [if_neg single]
      rw [if_neg fun both => single ⟨both.1, by rw [← head both.1]; exact both.2⟩]
      exact ⟨m, s', rfl, enough, after, armed, dropped⟩

/-- A list that was read to its end is counted in the list around it. -/
theorem listEnd_ok {inner : Stream} (entered : inner.stack = ⟨0, size⟩ :: s.stack)
    (input : inner.r = s.r) (remaining : inner.remaining = s.remaining)
    (limited : inner.limited = s.limited) (done : After inner size s') :
    ∃ s'', s'.listEnd = (.ok (), s'') ∧ After s size s'' ∧ s''.kind = none := by
  obtain ⟨r, rem, lim, stack⟩ := done
  rw [entered, advance] at stack
  rw [Nat.zero_add] at stack
  rw [listEnd, stack]
  dsimp only
  rw [if_neg (by simp)]
  refine ⟨_, rfl, ⟨by dsimp only; rw [r, input], by dsimp only; rw [rem, remaining],
    by dsimp only; rw [lim, limited], ?_⟩, rfl⟩
  cases s.stack <;> rfl

theorem list_of_ahead (ready : Ready s) (ahead : Ahead s (.list size))
    (fits : size ≤ (avail s).length) :
    ∃ inner, s.list = (.ok size, inner) ∧ Ready inner ∧ inner.kind = none ∧ inner.stack ≠ [] ∧
      avail inner = (avail s).take size ∧ ∀ done, After inner size done →
        ∃ s', done.listEnd = (.ok (), s') ∧ After s size s' ∧ s'.kind = none := by
  have short := length_avail_le s
  refine ⟨{ s with stack := ⟨0, size⟩ :: s.stack, kind := none, size := 0 }, ?_, ?_, rfl, by simp,
    ?_, fun done after => ?_⟩
  · rw [list, ahead.kindAhead]
    rfl
  · refine ⟨ready.1, ready.2.1, ?_⟩
    intro tos outer top
    cases top
    exact ⟨Nat.zero_le _, by dsimp only [left]; omega⟩
  · rw [avail]
    dsimp only [left]
    rw [Nat.sub_zero, avail]
    split
    · rfl
    · rename_i tos outer top
      have inside := ready.left_eq top
      rw [List.take_take, Nat.min_eq_left (by omega)]
  · refine listEnd_ok (s := s) ?_ ?_ ?_ ?_ after
    all_goals rfl

end Front

/-! ## Whole values -/

/-- A value takes at least its tag. -/
theorem length_of_readKind {input : Bytes} (read : Decode.readKind input = some (k, rest)) :
    rest.length < input.length := by
  rw [Canonical.readKind_eq_some read, List.length_append]
  have tagged : 0 < (Canonical.spelling k).length := by
    cases k with
    | byte v => exact Nat.one_pos
    | string | list => exact Decode.puthead_length_pos _ _ _
  omega

/-- What agrees behind some bytes agrees from their start. -/
theorem Agrees.behind {α : Type} {s s' : Stream} {n : Nat} {front : Option (α × Bytes)}
    {reading : Reading α} (agrees : Agrees s' front reading) (after : After s n s')
    (enough : n ≤ (avail s).length) : Agrees s front reading := by
  match front, agrees with
  | none, failed => exact failed
  | some (a, rest), ⟨m, t, took, bound, later, armed, dropped⟩ =>
    rw [after.avail, List.length_drop] at bound
    rw [after.avail, List.drop_drop] at dropped
    exact ⟨n + m, t, took, by omega, after.trans later, armed, dropped⟩

mutual
/-- `decodeInterface` finds what reading from the front finds, with two steps more. -/
theorem decodeInterface_agrees : (f : Nat) → (s : Stream) → Ready s → s.kind = none →
    ¬ (s.stack ≠ [] ∧ avail s = []) → 2 * (avail s).length + 1 ≤ f → (g : Nat) → f + 2 ≤ g →
    Agrees s (Decode.decodeValue f (avail s)) (decodeInterface g s)
  | 0, _, _, _, _, short, _, _ => by omega
  | f + 1, s, ready, armed, more, deep, g, enough => by
    obtain ⟨g, rfl⟩ : ∃ less, g = less + 1 := ⟨g - 1, by omega⟩
    rw [Decode.decodeValue, decodeInterface]
    rcases kindAhead_cases ready armed more with
      ⟨k, m, t, read, bound, after, ready', ahead, fits, told⟩ | ⟨bad, e, t, told, other⟩
    · have behind : avail t = (avail s).drop m := after.avail
      have shorter := length_of_readKind read
      rw [read, told, ← behind]
      rw [← behind] at shorter
      refine Agrees.behind ?_ after bound
      cases k with
      | byte v =>
        obtain ⟨s', took, after', armed'⟩ := bytes_of_byte ahead
        dsimp only [tag]
        rw [took]
        exact ⟨0, s', rfl, Nat.zero_le _, after', armed', rfl⟩
      | string size =>
        have took := bytes_of_string ready' ahead
        dsimp only [tag]
        cases string : Decode.readString size (avail t) with
        | none =>
          rw [string] at took
          obtain ⟨e, s', fails, other⟩ := took
          rw [fails]
          exact ⟨e, s', rfl, other⟩
        | some found =>
          rw [string] at took
          obtain ⟨n, s', reads, agreed⟩ := took
          rw [reads]
          exact ⟨n, s', rfl, agreed⟩
      | list size =>
        obtain ⟨inner, entered, readyIn, armedIn, inside, content, leaves⟩ :=
          list_of_ahead ready' ahead fits
        have length : (avail inner).length = size := by
          rw [content, List.length_take]
          exact Nat.min_eq_left fits
        have elems : Agrees inner
            ((Decode.decodeElems f (avail inner)).map fun items => (items, []))
            (if size = 0 then (.ok [], inner) else decodeSliceElems g inner) := by
          split
          · rename_i empty
            have nothing : avail inner = [] :=
              List.length_eq_zero_iff.mp (by rw [length, empty])
            rw [nothing, Decode.decodeElems]
            exact ⟨0, inner, rfl, Nat.zero_le _, After.refl inner, armedIn, by rw [nothing]; rfl⟩
          · exact decodeSliceElems_agrees f inner readyIn armedIn inside
              (by dsimp only [contentSize] at fits; omega) g (by omega)
        dsimp only [tag]
        rw [entered, if_neg (show ¬ (avail t).length < size from not_lt.mpr fits), ← content]
        dsimp only
        generalize (if size = 0 then (.ok [], inner) else decodeSliceElems g inner) = loop at elems ⊢
        cases parsed : Decode.decodeElems f (avail inner) with
        | none =>
          rw [parsed] at elems
          obtain ⟨e, t', rfl, other⟩ := elems
          exact ⟨e, t', rfl, other⟩
        | some items =>
          rw [parsed] at elems
          obtain ⟨n, t', rfl, bound', after', _, dropped⟩ := elems
          have whole : n = size := by
            have beyond := List.drop_eq_nil_iff.mp dropped.symm
            omega
          subst whole
          obtain ⟨s', ends, after'', armed'⟩ := leaves t' after'
          dsimp only
          rw [ends]
          exact ⟨n, s', rfl, fits, after'', armed', rfl⟩
    · rw [told]
      cases read : Decode.readKind (avail s) with
      | none => exact ⟨e, t, rfl, other⟩
      | some found =>
        obtain ⟨k, rest⟩ := found
        have short := bad k rest read
        cases k with
        | byte v => cases short
        | string size =>
          dsimp only [contentSize] at short ⊢
          rw [Decode.readString, if_pos short]
          exact ⟨e, t, rfl, other⟩
        | list size =>
          dsimp only [contentSize] at short ⊢
          rw [if_pos short]
          exact ⟨e, t, rfl, other⟩
theorem decodeSliceElems_agrees : (f : Nat) → (s : Stream) → Ready s → s.kind = none →
    s.stack ≠ [] → 2 * (avail s).length + 2 ≤ f → (g : Nat) → f + 2 ≤ g →
    Agrees s ((Decode.decodeElems f (avail s)).map fun items => (items, [])) (decodeSliceElems g s)
  | 0, _, _, _, _, short, _, _ => by omega
  | f + 1, s, ready, armed, inside, deep, g, enough => by
    obtain ⟨g, rfl⟩ : ∃ less, g = less + 2 := ⟨g - 2, by omega⟩
    rw [decodeSliceElems]
    cases front : avail s with
    | nil =>
      rw [decodeInterface, kindAhead, armed, if_pos (ready.atEnd_iff.mpr ⟨inside, front⟩),
        Decode.decodeElems]
      exact ⟨0, _, rfl, Nat.zero_le _, After.refl s, rfl, by rw [front]; rfl⟩
    | cons first others =>
      have value := decodeInterface_agrees f s ready armed (fun done => by simp [front] at done)
        (by omega) (g + 1) (by omega)
      rw [Decode.decodeElems, ← front]
      cases parsed : Decode.decodeValue f (avail s) with
      | none =>
        rw [parsed] at value
        obtain ⟨e, t, fails, other⟩ := value
        rw [fails]
        cases e <;> first | exact absurd rfl other | exact ⟨_, t, rfl, other⟩
      | some found =>
        obtain ⟨item, rest⟩ := found
        rw [parsed] at value
        obtain ⟨n, t, took, bound, after, armed', rfl⟩ := value
        have behind : avail t = (avail s).drop n := after.avail
        have shorter : (avail t).length < (avail s).length := by
          have spelled := congrArg List.length (Canonical.encode_of_decodeValue _ _ _ _ parsed)
          have positive := Decode.encode_length_pos item
          rw [List.length_append] at spelled
          rw [behind]
          omega
        have rest := (decodeSliceElems_agrees f t (after.ready ready bound) armed'
          (after.stack_ne inside) (by omega) (g + 1) (by omega)).behind after bound
        rw [behind] at rest
        rw [took]
        dsimp only
        cases parsed' : Decode.decodeElems f ((avail s).drop n) with
        | none =>
          rw [parsed'] at rest
          obtain ⟨e, s', fails, other⟩ := rest
          rw [fails]
          exact ⟨e, s', rfl, other⟩
        | some items =>
          rw [parsed'] at rest
          obtain ⟨k, s', reads, agreed⟩ := rest
          rw [reads]
          exact ⟨k, s', rfl, agreed⟩
end

end Stream

/-- The stream accepts what reading from the front accepts. -/
theorem decodeBytes_eq_ok_iff {b : Bytes} {v : Item} :
    decodeBytes b = .ok v ↔ Decode.decodeBytes b = some v := by
  have ready : Stream.Ready (newStream b) := ⟨rfl, rfl, fun tos outer top => by cases top⟩
  have agrees := Stream.decodeInterface_agrees (2 * b.length + 2) (newStream b) ready rfl
    (fun done => done.1 rfl) (Nat.le_succ _) (2 * b.length + 4) (le_refl _)
  change Stream.Agrees _ (Decode.decodeValue (2 * b.length + 2) b) _ at agrees
  rw [decodeBytes, Decode.decodeBytes]
  cases parsed : Decode.decodeValue (2 * b.length + 2) b with
  | none =>
    rw [parsed] at agrees
    obtain ⟨e, s, fails, _⟩ := agrees
    rw [fails]
    simp
  | some found =>
    obtain ⟨item, rest⟩ := found
    rw [parsed] at agrees
    obtain ⟨n, s, took, _, after, _, dropped⟩ := agrees
    have same : s.r = rest := after.1.trans dropped.symm
    rw [took]
    dsimp only
    rw [same]
    cases rest <;> simp

/-- Encoding and decoding of generic values undo each other, and no value has a second
encoding.  A byte slice of Go is shorter than `2 ^ 63` bytes. -/
theorem interface_round_trip :
    (∀ v b, Buffer.encodeToBytes v = some b → decodeBytes b = .ok v) ∧
      (∀ b v, b.length < maxInt → decodeBytes b = .ok v → Buffer.encodeToBytes v = some b) ∧
      ∀ b b' v, decodeBytes b = .ok v → decodeBytes b' = .ok v → b = b' := by
  refine ⟨?_, ?_, ?_⟩
  · intro v b encoded
    rw [Buffer.encodeToBytes, Buffer.encodeInterface_eq] at encoded
    split at encoded
    · rename_i short
      cases encoded
      exact decodeBytes_eq_ok_iff.mpr (Decode.decodeBytes_encode short)
    · cases encoded
  · intro b v short accepted
    have spelled := Canonical.encode_of_decodeBytes (decodeBytes_eq_ok_iff.mp accepted)
    rw [Buffer.encodeToBytes, Buffer.encodeInterface_eq, spelled, if_pos short]
  · intro b b' v accepted accepted'
    rw [← Canonical.encode_of_decodeBytes (decodeBytes_eq_ok_iff.mp accepted),
      Canonical.encode_of_decodeBytes (decodeBytes_eq_ok_iff.mp accepted')]

theorem interface_round_trip_nested :
    Buffer.encodeToBytes (.list [.bytes [0xFF], .list []]) = some [0xC3, 0x81, 0xFF, 0xC0] ∧
      decodeBytes [0xC3, 0x81, 0xFF, 0xC0] = .ok (.list [.bytes [0xFF], .list []]) := by
  have encoded : Buffer.encodeToBytes (.list [.bytes [0xFF], .list []]) =
      some [0xC3, 0x81, 0xFF, 0xC0] := by
    decide +kernel
  exact ⟨encoded, interface_round_trip.1 _ _ encoded⟩

end Linkeye.Rlp.Streaming
