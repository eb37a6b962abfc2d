import Linkeye.Rlp.Encode

/-!
# The encoder's buffer

`encbuf` of `rlp/encode.go` keeps the strings of a value in one slice and the
headers of its lists in another.  The size of a list is known when the list ends,
and the headers are put between the strings at the end: in one slice by `toBytes`, in
successive writes by `toWriter`, piece by piece by `encReader`.  All three give the
same bytes, and for a value these are its encoding.
-/

set_option autoImplicit false

namespace Linkeye.Rlp.Buffer

open Common.Types Encode

structure Listhead where
  offset : Nat
  size : Nat

/-- `encbuf`, without the auxiliary buffer for integers. -/
structure Encbuf where
  str : Bytes
  lheads : List Listhead
  lhsize : Nat

def Encbuf.empty : Encbuf := ⟨[], [], 0⟩

def intsize (i : Nat) : Nat := (putint i).length

def headsize (size : Nat) : Nat := if size < 56 then 1 else 1 + intsize size

def Listhead.encode (head : Listhead) : Bytes := puthead 0xC0 0xF7 head.size

namespace Encbuf

def size (w : Encbuf) : Nat := w.str.length + w.lhsize

def encodeString (w : Encbuf) (b : Bytes) : Encbuf :=
  { w with str := w.str ++ Encode.encodeString b }

/-- `list`: until the list ends, the size of its header holds the size of the
headers before it. -/
def list (w : Encbuf) : Encbuf :=
  { w with lheads := w.lheads ++ [⟨w.str.length, w.lhsize⟩] }

def listEnd (w : Encbuf) (i : Nat) : Encbuf :=
  match w.lheads[i]? with
  | none => w
  | some lh =>
    let total := w.size - lh.offset - lh.size
    { w with
      lheads := w.lheads.set i { lh with size := total }
      lhsize := w.lhsize + headsize total }

mutual
def write : Item → Encbuf → Encbuf
  | .bytes b, w => w.encodeString b
  | .list items, w => (writeItems items w.list).listEnd w.lheads.length
def writeItems : List Item → Encbuf → Encbuf
  | [], w => w
  | item :: rest, w => writeItems rest (write item w)
end

/-- The loop of `toBytes`: the strings up to a header, the header, and so on. -/
def merge (str : Bytes) : Nat → List Listhead → Bytes
  | strpos, [] => str.drop strpos
  | strpos, head :: heads =>
    (str.drop strpos).take (head.offset - strpos) ++ head.encode ++ merge str head.offset heads

/-- `toBytes` fills a slice of the size that was added up. -/
def toBytes (w : Encbuf) : Bytes :=
  let out := merge w.str 0 w.lheads
  out.take w.size ++ List.replicate (w.size - out.length) 0

end Encbuf

def encodeInterface (v : Item) : Bytes := (Encbuf.write v Encbuf.empty).toBytes

/-- `EncodeToBytes`; no slice has `2 ^ 63` bytes or more. -/
def encodeToBytes (v : Item) : Option Bytes :=
  if (encodeInterface v).length < maxInt then some (encodeInterface v) else none

/-! ## Nested calls -/

/-- A properly nested sequence of calls: strings written to the buffer, and lists that
end after the calls inside them. -/
inductive Calls where
  | done
  | write (b : Bytes) (rest : Calls)
  | list (inside rest : Calls)

namespace Calls

def run : Calls → Encbuf → Encbuf
  | done, w => w
  | write b rest, w => rest.run { w with str := w.str ++ b }
  | list inside rest, w => rest.run ((inside.run w.list).listEnd w.lheads.length)

/-- The bytes that the calls stand for. -/
def bytes : Calls → Bytes
  | done => []
  | write b rest => b ++ rest.bytes
  | list inside rest => puthead 0xC0 0xF7 inside.bytes.length ++ inside.bytes ++ rest.bytes

end Calls

mutual
/-- The calls that write a value, before others. -/
def calls : Item → Calls → Calls
  | .bytes b, rest => .write (encodeString b) rest
  | .list items, rest => .list (callsOf items .done) rest
def callsOf : List Item → Calls → Calls
  | [], rest => rest
  | item :: items, rest => calls item (callsOf items rest)
end

mutual
theorem run_calls : (item : Item) → (rest : Calls) → (w : Encbuf) →
    (calls item rest).run w = rest.run (Encbuf.write item w)
  | .bytes b, rest, w => rfl
  | .list items, rest, w => by
    rw [calls, Calls.run, run_callsOf items, Encbuf.write, Calls.run]
theorem run_callsOf : (items : List Item) → (rest : Calls) → (w : Encbuf) →
    (callsOf items rest).run w = rest.run (Encbuf.writeItems items w)
  | [], rest, w => rfl
  | item :: items, rest, w => by
    rw [callsOf, run_calls item, run_callsOf items, Encbuf.writeItems]
end

mutual
theorem bytes_calls : (item : Item) → (rest : Calls) →
    (calls item rest).bytes = encode item ++ rest.bytes
  | .bytes b, rest => by rw [calls, Calls.bytes, encode]
  | .list items, rest => by
    simp [calls, Calls.bytes, bytes_callsOf items .done, encode]
theorem bytes_callsOf : (items : List Item) → (rest : Calls) →
    (callsOf items rest).bytes = encodeItems items ++ rest.bytes
  | [], rest => rfl
  | item :: items, rest => by
    rw [callsOf, bytes_calls item, bytes_callsOf items, encodeItems, List.append_assoc]
end

/-! ## What the calls add to the buffer -/

theorem length_puthead (smalltag largetag : UInt8) (size : Nat) :
    (puthead smalltag largetag size).length = headsize size := by
  rw [puthead, headsize]
  split
  · rfl
  · rw [List.length_cons, intsize, Nat.add_comm]

/-- The headers lie one behind the other between two positions of the strings. -/
def Placed : Nat → List Listhead → Nat → Prop
  | first, [], last => first ≤ last
  | first, head :: heads, last => first ≤ head.offset ∧ Placed head.offset heads last

theorem Placed.le {hs : List Listhead} {first last : Nat} (placed : Placed first hs last) :
    first ≤ last := by
  induction hs generalizing first with
  | nil => exact placed
  | cons head hs ih => exact le_trans placed.1 (ih placed.2)

theorem Placed.append {hs hs' : List Listhead} {first mid last : Nat} (left : Placed first hs mid)
    (right : Placed mid hs' last) : Placed first (hs ++ hs') last := by
  induction hs generalizing first with
  | nil =>
    cases hs' with
    | nil => exact le_trans left right
    | cons head hs' => exact ⟨le_trans left right.1, right.2⟩
  | cons head hs ih => exact ⟨left.1, ih left.2⟩

/-- Headers that start behind some strings leave those strings in front. -/
theorem merge_before {str : Bytes} {strpos mid last : Nat} {hs : List Listhead}
    (later : strpos ≤ mid) (behind : Placed mid hs last) :
    Encbuf.merge str strpos hs = (str.drop strpos).take (mid - strpos) ++ Encbuf.merge str mid hs := by
  have skipped : (str.drop strpos).drop (mid - strpos) = str.drop mid := by
    rw [List.drop_drop, Nat.add_sub_cancel' later]
  cases hs with
  | nil => rw [Encbuf.merge, Encbuf.merge, ← skipped, List.take_append_drop]
  | cons head hs =>
    have split : head.offset - strpos = (mid - strpos) + (head.offset - mid) := by
      have := behind.1
      omega
    rw [Encbuf.merge, Encbuf.merge, split, List.take_add, skipped]
    simp only [List.append_assoc]

/-- What calls do to a buffer: behind what it holds they put strings and headers that
lie among these strings, add up the sizes of the headers, and the merge of both is what
the calls stand for. -/
structure Added (calls : Calls) (w : Encbuf) (s : Bytes) (hs : List Listhead) : Prop where
  run : calls.run w = ⟨w.str ++ s, w.lheads ++ hs, w.lhsize + (hs.map (headsize ·.size)).sum⟩
  length : calls.bytes.length = s.length + (hs.map (headsize ·.size)).sum
  placed : Placed w.str.length hs (w.str ++ s).length
  merged : ∀ after hs' last, Placed (w.str ++ s).length hs' last →
    Encbuf.merge (w.str ++ s ++ after) w.str.length (hs ++ hs') =
      calls.bytes ++ Encbuf.merge (w.str ++ s ++ after) (w.str ++ s).length hs'

theorem exists_added (calls : Calls) (w : Encbuf) : ∃ s hs, Added calls w s hs := by
  induction calls generalizing w with
  | done => exact ⟨[], [], by simp [Calls.run], rfl, by simp [Placed], by simp [Calls.bytes]⟩
  | write b rest ih =>
    obtain ⟨s, hs, added⟩ := ih { w with str := w.str ++ b }
    have within : w.str.length ≤ (w.str ++ b).length := by simp
    refine ⟨b ++ s, hs, by simp [Calls.run, added.run], ?_, ?_, ?_⟩
    · simp [Calls.bytes, added.length, Nat.add_assoc]
    · simpa using @Placed.append [] _ _ _ _ within added.placed
    · intro after hs' last behind
      have merged := added.merged after hs' last (by simpa using behind)
      rw [← List.append_assoc, merge_before within (added.placed.append (by simpa using behind)),
        merged]
      simp [Calls.bytes]
  | list inside rest ihInside ihRest =>
    obtain ⟨s, hs, inner⟩ := ihInside w.list
    have str : w.list.str = w.str := rfl
    -- The header of this list is the first behind those that were there.
    have ended : (inside.run w.list).listEnd w.lheads.length =
        ⟨w.str ++ s, w.lheads ++ ⟨w.str.length, inside.bytes.length⟩ :: hs,
          w.lhsize + ((hs.map (headsize ·.size)).sum + headsize inside.bytes.length)⟩ := by
      have total : s.length + (w.lhsize + (hs.map (headsize ·.size)).sum) - w.lhsize =
          inside.bytes.length := by
        rw [inner.length]
        omega
      rw [inner.run, Encbuf.listEnd]
      simp [Encbuf.list, Encbuf.size, total, Nat.add_assoc]
    obtain ⟨s', hs', outer⟩ := ihRest ((inside.run w.list).listEnd w.lheads.length)
    rw [ended] at outer
    refine ⟨s ++ s', ⟨w.str.length, inside.bytes.length⟩ :: hs ++ hs', ?_, ?_, ?_, ?_⟩
    · rw [Calls.run, ended, outer.run]
      simp
      omega
    · simp [Calls.bytes, inner.length, outer.length, length_puthead]
      omega
    · exact ⟨le_refl _, by simpa [str] using inner.placed.append outer.placed⟩
    · intro after hs'' last behind
      have first := inner.merged (s' ++ after) (hs' ++ hs'') last
        (by simpa [str] using outer.placed.append (by simpa using behind))
      have others := outer.merged after hs'' last (by simpa using behind)
      simp only [str, List.append_assoc] at first others
      simp only [List.append_assoc, List.cons_append, Encbuf.merge, first, others]
      simp [Listhead.encode, Calls.bytes]

/-- The buffer that calls leave, with the size they have added up. -/
theorem run_empty (calls : Calls) :
    ∃ w, calls.run .empty = w ∧ Placed 0 w.lheads w.str.length ∧
      Encbuf.merge w.str 0 w.lheads = calls.bytes ∧ w.size = calls.bytes.length := by
  obtain ⟨s, hs, added⟩ := exists_added calls .empty
  refine ⟨_, added.run, by simpa [Encbuf.empty] using added.placed, ?_, ?_⟩
  · simpa [Encbuf.merge, Encbuf.empty] using added.merged [] [] _ (le_refl _)
  · simp [Encbuf.size, Encbuf.empty, added.length]

theorem toBytes_run (calls : Calls) : (calls.run .empty).toBytes = calls.bytes := by
  obtain ⟨w, run, -, merged, size⟩ := run_empty calls
  rw [run, Encbuf.toBytes, merged, size, List.take_length, Nat.sub_self]
  simp

/-- The buffer holds the encoding of the value that was written. -/
theorem encodeInterface_eq (v : Item) : encodeInterface v = encode v := by
  have written := toBytes_run (calls v .done)
  rw [run_calls, bytes_calls] at written
  simpa [Calls.run, Calls.bytes, encodeInterface] using written

/-! ## Writing and reading in pieces -/

namespace Encbuf

/-- The loop of `toWriter`: the successive writes. -/
def writes (str : Bytes) : Nat → List Listhead → List Bytes
  | strpos, [] => if strpos < str.length then [str.drop strpos] else []
  | strpos, head :: heads =>
    if head.offset - strpos > 0 then
      (str.drop strpos).take (head.offset - strpos) :: head.encode :: writes str head.offset heads
    else head.encode :: writes str strpos heads

def toWriter (w : Encbuf) : List Bytes := writes w.str 0 w.lheads

theorem flatten_writes {str : Bytes} {hs : List Listhead} {strpos : Nat}
    (placed : Placed strpos hs str.length) : (writes str strpos hs).flatten = merge str strpos hs := by
  induction hs generalizing strpos with
  | nil =>
    rw [writes, merge]
    split
    · simp
    · rw [List.drop_eq_nil_of_le (by omega), List.flatten_nil]
  | cons head hs ih =>
    rw [writes, merge]
    split
    · simp [ih placed.2]
    · have here : head.offset = strpos := by
        have := placed.1
        omega
      rw [here, List.flatten_cons, ih (here ▸ placed.2)]
      simp

end Encbuf

/-- A piece that `encReader` has not read to its end: a part of the strings, or of the
scratch buffer that all headers share. -/
structure Piece where
  header : Bool
  first : Nat
  last : Nat

/-- `encReader`; `heads` are the headers from `lhpos` on. -/
structure EncReader where
  strpos : Nat
  heads : List Listhead
  sizebuf : Bytes
  piece : Option Piece

namespace EncReader

variable (str : Bytes)

def content (sizebuf : Bytes) (p : Piece) : Bytes :=
  ((if p.header then sizebuf else str).drop p.first).take (p.last - p.first)

/-- `r.piece = r.next()`. -/
def next (r : EncReader) : EncReader :=
  match r.piece, r.heads with
  | some _, _ => r
  | none, head :: heads =>
    if head.offset - r.strpos > 0 then
      { r with piece := some ⟨false, r.strpos, head.offset⟩, strpos := head.offset }
    else
      { r with
        heads := heads
        sizebuf := head.encode ++ r.sizebuf.drop head.encode.length
        piece := some ⟨true, 0, head.encode.length⟩ }
  | none, [] =>
    if r.strpos < str.length then
      { r with piece := some ⟨false, r.strpos, str.length⟩, strpos := str.length }
    else r

/-- The loop of `Read` with room for `n` more bytes: what it copies, and whether it
meets the end. -/
def read : Nat → EncReader → Nat → EncReader × Bytes × Bool
  | 0, r, _ => (r, [], false)
  | fuel + 1, r, n =>
    let r := r.next str
    match r.piece with
    | none => (r, [], true)
    | some p =>
      let b := content str r.sizebuf p
      if n < b.length then
        -- The piece did not fit; the rest of it is for the next call.
        ({ r with piece := some { p with first := p.first + n } }, b.take n, false)
      else
        let (r, out, eof) := read fuel { r with piece := none } (n - b.length)
        (r, b ++ out, eof)

/-- What calls of `Read` with slices of these lengths give up to the end, if they come
to it. -/
def readAll (fuel : Nat) : EncReader → List Nat → Option Bytes
  | _, [] => none
  | r, n :: sizes =>
    let (r, out, eof) := r.read str fuel n
    if eof then some out else (readAll fuel r sizes).map (out ++ ·)

/-- What is still to be read. -/
def rest (r : EncReader) : Bytes :=
  r.piece.elim [] (content str r.sizebuf) ++ Encbuf.merge str r.strpos r.heads

structure Ready (r : EncReader) : Prop where
  placed : Placed r.strpos r.heads str.length
  unread : ∀ p, r.piece = some p → 0 < (content str r.sizebuf p).length

variable {str} {r : EncReader}

theorem next_spec (ready : r.Ready str) : (r.next str).Ready str ∧
    (r.next str).rest str = r.rest str ∧ ((r.next str).piece = none → r.rest str = []) := by
  obtain ⟨strpos, heads, sizebuf, piece⟩ := r
  cases piece with
  | some p => exact ⟨ready, rfl, nofun⟩
  | none =>
    have placed := ready.placed
    cases heads with
    | nil =>
      simp only [next]
      split
      case isTrue more =>
        exact ⟨⟨le_refl _, by simpa [content]⟩, by simp [rest, content, Encbuf.merge], nofun⟩
      case isFalse nomore =>
        exact ⟨ready, rfl, fun _ => List.drop_eq_nil_of_le (not_lt.mp nomore)⟩
    | cons head heads =>
      obtain ⟨start, behind⟩ := placed
      simp only [next]
      split
      case isTrue more =>
        refine ⟨⟨⟨le_refl _, behind⟩, ?_⟩, ?_, nofun⟩
        · have within := behind.le
          simp [content]
          omega
        · simp [rest, content, Encbuf.merge]
      case isFalse nomore =>
        have here : strpos = head.offset := by
          simp only at start nomore
          omega
        subst here
        refine ⟨⟨behind, ?_⟩, ?_, nofun⟩
        · have some : 0 < headsize head.size := by
            rw [headsize]
            split <;> omega
          simp [content, Listhead.encode, length_puthead, some]
        · simp [rest, content, Encbuf.merge]

theorem read_spec {fuel n : Nat} (ready : r.Ready str) (enough : (r.rest str).length < fuel) :
    ∃ r', r.read str fuel n = (r', (r.rest str).take n, decide ((r.rest str).length ≤ n)) ∧
      r'.Ready str ∧ r'.rest str = (r.rest str).drop n := by
  induction fuel generalizing r n with
  | zero => omega
  | succ fuel ih =>
    obtain ⟨ready', same, ended⟩ := next_spec ready
    rw [← same] at enough ended ⊢
    rw [read]
    generalize r.next str = r at ready' enough ended
    cases piece : r.piece with
    | none =>
      rw [ended piece]
      exact ⟨r, by simp, ready', by simp [ended piece]⟩
    | some p =>
      have unread := ready'.unread p piece
      have whole : r.rest str = content str r.sizebuf p ++ Encbuf.merge str r.strpos r.heads := by
        rw [rest, piece, Option.elim_some]
      rw [whole, List.length_append] at enough
      rw [whole, List.take_append, List.drop_append, List.length_append]
      dsimp only
      split
      case isTrue part =>
        have left : content str r.sizebuf { p with first := p.first + n } =
            (content str r.sizebuf p).drop n := by
          simp [content, List.drop_take, Nat.sub_sub]
        refine ⟨{ r with piece := some { p with first := p.first + n } }, ?_,
          ⟨ready'.placed, ?_⟩, ?_⟩
        · simp [Nat.sub_eq_zero_of_le part.le]
          omega
        · rintro _ ⟨⟩
          rw [left, List.length_drop]
          omega
        · rw [rest, Nat.sub_eq_zero_of_le part.le, Option.elim_some, left, List.drop_zero]
      case isFalse fits =>
        obtain ⟨r', step, ready'', left⟩ := ih (r := { r with piece := none })
          (n := n - (content str r.sizebuf p).length) ⟨ready'.placed, nofun⟩
          (show (Encbuf.merge str r.strpos r.heads).length < fuel by omega)
        have rest_none : rest str { r with piece := none } = Encbuf.merge str r.strpos r.heads := rfl
        rw [rest_none] at step left
        refine ⟨r', ?_, ready'', ?_⟩
        · rw [step, List.take_of_length_le (not_lt.mp fits)]
          simp
          omega
        · rw [left, List.drop_of_length_le (not_lt.mp fits), List.nil_append]

theorem readAll_spec {fuel : Nat} {sizes : List Nat} (ready : r.Ready str)
    (enough : (r.rest str).length < fuel) : r.readAll str fuel sizes =
      if sizes ≠ [] ∧ (r.rest str).length ≤ sizes.sum then some (r.rest str) else none := by
  induction sizes generalizing r with
  | nil => simp [readAll]
  | cons n sizes ih =>
    obtain ⟨r', step, ready', left⟩ := read_spec (n := n) ready enough
    rw [readAll, step]
    by_cases enough' : (r.rest str).length ≤ n
    · simp [enough', List.take_of_length_le, le_add_right enough']
    · have more : sizes ≠ [] ∧ ((r.rest str).drop n).length ≤ sizes.sum ↔
          (r.rest str).length ≤ n + sizes.sum := by
        rw [List.length_drop]
        constructor
        · omega
        · intro h
          refine ⟨?_, by omega⟩
          rintro rfl
          exact enough' h
      simp only [ih ready' (by rw [left, List.length_drop]; omega), left, more]
      simp [enough']

end EncReader

namespace Encbuf

/-- What reading from `EncodeToReader` gives, whatever the scratch buffer held before. -/
def readAll (w : Encbuf) (sizebuf : Bytes) (sizes : List Nat) : Option Bytes :=
  EncReader.readAll w.str (w.size + 1) ⟨0, w.lheads, sizebuf, none⟩ sizes

end Encbuf

/-- Nested calls leave a buffer of which the slice, the writes and the reads have the
same bytes, as many as were added up; reading comes to its end with the last of them. -/
theorem outputs_agree (calls : Calls) (sizebuf : Bytes) (sizes : List Nat) :
    let w := calls.run .empty
    w.toBytes.length = w.size ∧ w.toWriter.flatten = w.toBytes ∧
      w.readAll sizebuf sizes =
        if sizes ≠ [] ∧ w.size ≤ sizes.sum then some w.toBytes else none := by
  intro w
  obtain ⟨_, rfl, placed, merged, size⟩ := run_empty calls
  have bytes : w.toBytes = calls.bytes := toBytes_run calls
  refine ⟨by rw [bytes, size], ?_, ?_⟩
  · rw [Encbuf.toWriter, Encbuf.flatten_writes placed, merged, bytes]
  · have ready : EncReader.Ready w.str ⟨0, w.lheads, sizebuf, none⟩ := ⟨placed, nofun⟩
    have left : EncReader.rest w.str ⟨0, w.lheads, sizebuf, none⟩ = w.toBytes := by
      rw [bytes, ← merged]
      rfl
    rw [Encbuf.readAll, EncReader.readAll_spec ready (by rw [left, bytes, size]; omega), left, bytes,
      size]

end Linkeye.Rlp.Buffer
