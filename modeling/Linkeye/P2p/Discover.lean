import Mathlib.Data.List.Perm.Basic
import Mathlib.Data.List.Nodup
import Linkeye.Lib.Searches
import Linkeye.Common.Types

/-!
# Nodes of the discovery table

`ReadRandomNodes` walks the shuffled buckets in a circle, moves the head of each into the
buffer and removes the buckets that become empty.  What it returns is one more than the
last index of its loop, which is one too many where the buffer ends the loop.  `closest`
pushes every entry into a list kept sorted by the distance to a target.
-/

set_option autoImplicit false

namespace Linkeye.P2p.Discover

open Common.Types Lib.Searches

/-- The live entries of the buckets.  `bumpOrAdd` looks for a node before it adds it, and
a node has one bucket, so no node stands in the table twice. -/
structure Table (Node : Type) where
  initDone : Bool
  buckets : List (List Node)
  distinct : buckets.flatten.Nodup

variable {Node : Type}

def Table.len (tab : Table Node) : Nat := tab.buckets.flatten.length

/-- The shuffle from index `i` down to 1, with the answers of `Intn`. -/
def shuffle (intn : Nat → Nat) : Nat → Array (List Node) → Array (List Node)
  | 0, buckets => buckets
  | i + 1, buckets =>
    shuffle intn i (buckets.swapIfInBounds (i + 1) (intn (i + 1) % buckets.size))

/-- The buckets after the head of bucket `j` is taken. -/
def advance (buckets : List (List Node)) (j : Nat) (rest : List Node) : List (List Node) :=
  if rest.isEmpty then buckets.eraseIdx j else buckets.set j rest

/-- The loop over `buf[i:]`; an index out of range ends the program. -/
def fill (buckets : List (List Node)) (j i : Nat) :
    List (Option Node) → Option (Nat × List (Option Node))
  | [] => some (i + 1, [])
  | _ :: slots =>
    match buckets[j]? with
    | some (node :: rest) =>
      let buckets := advance buckets j rest
      if buckets.isEmpty then some (i + 1, some node :: slots)
      else (fill buckets ((j + 1) % buckets.length) (i + 1) slots).map fun (n, filled) =>
        (n, some node :: filled)
    | _ => none

/-- The returned number and the buffer afterwards. -/
def readRandomNodes (tab : Table Node) (intn : Nat → Nat) (buf : List (Option Node)) :
    Option (Nat × List (Option Node)) :=
  if tab.initDone then
    let buckets := tab.buckets.filter fun entries => !entries.isEmpty
    if buckets.isEmpty then some (0, buf)
    else fill (shuffle intn (buckets.length - 1) buckets.toArray).toList 0 0 buf
  else some (0, buf)

theorem shuffle_perm (intn : Nat → Nat) (i : Nat) (buckets : Array (List Node)) :
    (shuffle intn i buckets).toList.Perm buckets.toList := by
  induction i generalizing buckets with
  | zero => exact .refl _
  | succ i ih =>
    refine (ih _).trans ?_
    unfold Array.swapIfInBounds
    split
    · split
      · exact (Array.swap_perm _ _).toList
      · exact .refl _
    · exact .refl _

section
variable {buckets : List (List Node)} {j : Nat} {node : Node} {rest : List Node}

/-- The head of the bucket and what is left are what was there. -/
theorem advance_perm (held : buckets[j]? = some (node :: rest)) :
    (node :: (advance buckets j rest).flatten).Perm buckets.flatten := by
  obtain ⟨inside, same⟩ := List.getElem?_eq_some_iff.mp held
  have whole : ((node :: rest) :: buckets.eraseIdx j).Perm buckets :=
    same ▸ List.getElem_cons_eraseIdx_perm inside
  refine List.Perm.trans ?_ whole.flatten
  unfold advance
  split
  · rename_i empty
    rw [List.isEmpty_iff.mp empty]
    exact .refl _
  · exact (List.set_perm_cons_eraseIdx inside rest).flatten.cons node

theorem advance_nonempty (nonempty : ∀ entries ∈ buckets, entries ≠ [])
    (entries : List Node) (kept : entries ∈ advance buckets j rest) : entries ≠ [] := by
  unfold advance at kept
  split at kept
  · exact nonempty entries (List.mem_of_mem_eraseIdx kept)
  · rename_i more
    rcases List.mem_or_eq_of_mem_set kept with old | rfl
    · exact nonempty entries old
    · simpa using more

theorem flatten_length_pos (nonempty : ∀ entries ∈ buckets, entries ≠ [])
    (any : buckets ≠ []) : 0 < buckets.flatten.length := by
  obtain ⟨entries, others, rfl⟩ := List.exists_cons_of_ne_nil any
  rw [List.flatten_cons, List.length_append]
  exact Nat.add_pos_left (List.length_pos_iff.mpr (nonempty entries List.mem_cons_self)) _

/-- The walk fills slots with nodes of the buckets until one or the other runs out. -/
theorem fill_spec {buckets : List (List Node)} {j i : Nat} {slots : List (Option Node)}
    (nonempty : ∀ entries ∈ buckets, entries ≠ []) (inside : j < buckets.length) :
    ∃ (n : Nat) (nodes left : List Node),
      fill buckets j i slots = some (n, nodes.map some ++ slots.drop nodes.length) ∧
      (nodes ++ left).Perm buckets.flatten ∧
      nodes.length = min slots.length buckets.flatten.length ∧
      (buckets.flatten.length ≤ slots.length → n = i + buckets.flatten.length) := by
  induction slots generalizing buckets j i with
  | nil =>
    have pos := flatten_length_pos nonempty (List.ne_nil_of_length_pos (by omega))
    refine ⟨i + 1, [], buckets.flatten, rfl, .refl _, (Nat.zero_min _).symm, fun none => ?_⟩
    rw [List.length_nil] at none
    omega
  | cons slot slots ih =>
    have held := List.getElem?_eq_getElem inside
    obtain ⟨node, rest, full⟩ :=
      List.exists_cons_of_ne_nil (nonempty _ (List.getElem_mem inside))
    rw [full] at held
    have moved := advance_perm held
    have count := moved.length_eq
    rw [List.length_cons] at count
    simp only [fill, held, List.length_cons]
    split
    · -- the last bucket has become empty
      rename_i empty
      rw [List.isEmpty_iff.mp empty] at moved count
      rw [List.flatten_nil, List.length_nil] at count
      refine ⟨i + 1, [node], [], rfl, moved, ?_, fun _ => ?_⟩
      · rw [List.length_singleton]
        omega
      · omega
    · rename_i more
      have any : advance buckets j rest ≠ [] := fun none => more (List.isEmpty_iff.mpr none)
      obtain ⟨n, nodes, left, filled, perm, length, returned⟩ :=
        @ih (advance buckets j rest) ((j + 1) % (advance buckets j rest).length) (i + 1)
          (advance_nonempty nonempty) (Nat.mod_lt _ (List.length_pos_iff.mpr any))
      refine ⟨n, node :: nodes, left, ?_, (perm.cons node).trans moved, ?_, fun enough => ?_⟩
      · rw [filled]
        rfl
      · rw [List.length_cons, length]
        omega
      · rw [returned (by omega)]
        omega

end

theorem flatten_filter (buckets : List (List Node)) :
    (buckets.filter fun entries => !entries.isEmpty).flatten = buckets.flatten := by
  induction buckets with
  | nil => rfl
  | cons entries others ih =>
    cases entries with
    | nil => simpa using ih
    | cons node rest => simpa using ih

def twoNodes : Table Nat := ⟨true, [[], [7], [9]], by decide⟩

/-- The loop over the bytes of the target. -/
def distcmp : Bytes → Bytes → Bytes → Int
  | t :: target, x :: a, y :: b =>
    let da := x ^^^ t
    let db := y ^^^ t
    if db < da then 1 else if da < db then -1 else distcmp target a b
  | _, _, _ => 0

/-- The overlapping `copy` moves the entries from `ix` on by one place and loses the last. -/
def push (sha : Node → Hash) (target : Hash) (maxElems : Nat) (entries : List Node) (n : Node) :
    List Node :=
  let ix := search (fun i => entries[i]?.all fun m =>
    0 < distcmp target.data (sha m).data (sha n).data) 0 entries.length
  let entries := if entries.length < maxElems then entries ++ [n] else entries
  if ix = entries.length then entries
  else entries.take ix ++ n :: (entries.drop ix).dropLast

def Table.closest (tab : Table Node) (sha : Node → Hash) (target : Hash) (nresults : Nat) :
    List Node :=
  tab.buckets.flatten.foldl (push sha target nresults) []

/-- The bytes of the exclusive or, read as a number. -/
def distance (target a : Bytes) : Nat := bigSetBytes (List.zipWith (· ^^^ ·) a target)

theorem distcmp_pos_iff {target a b : Bytes} (left : a.length = target.length)
    (right : b.length = target.length) :
    0 < distcmp target a b ↔ distance target b < distance target a := by
  induction target generalizing a b with
  | nil => simp_all [distcmp, distance]
  | cons t target ih =>
    obtain ⟨x, a, rfl⟩ := List.exists_cons_of_length_eq_add_one left
    obtain ⟨y, b, rfl⟩ := List.exists_cons_of_length_eq_add_one right
    have same := @ih a b (by simpa using left) (by simpa using right)
    have smallA := bigSetBytes_lt (List.zipWith (· ^^^ ·) a target)
    have smallB := bigSetBytes_lt (List.zipWith (· ^^^ ·) b target)
    simp only [List.length_cons, Nat.add_right_cancel_iff] at left right
    simp only [distance, List.length_zipWith, left, right, Nat.min_self] at same smallA smallB
    simp only [distcmp, distance, List.zipWith_cons_cons, bigSetBytes_cons, List.length_zipWith,
      left, right, Nat.min_self, UInt8.lt_iff_toNat_lt]
    split
    · rename_i less
      refine iff_of_true one_pos ?_
      nlinarith
    split
    · rename_i more
      refine iff_of_false (by decide) ?_
      nlinarith
    · have level : (y ^^^ t).toNat = (x ^^^ t).toNat := by omega
      rw [same, level, Nat.add_lt_add_iff_right]

/-- The list holds the nearest of the nodes seen, in order of their distances. -/
structure Nearest (dist : Node → Nat) (k : Nat) (seen entries : List Node) : Prop where
  sorted : entries.Pairwise (dist · ≤ dist ·)
  count : entries.length = min k seen.length
  others : ∃ left, (entries ++ left).Perm seen ∧
    ∀ node ∈ entries, ∀ other ∈ left, dist node ≤ dist other

section
variable {sha : Node → Hash} {target : Hash} {k : Nat} {seen entries : List Node} {n : Node}

/-- A node put in its place; of a full list the last node is lost. -/
theorem Nearest.insert {dist : Node → Nat} {front back : List Node}
    (nearest : Nearest dist k seen (front ++ back)) (nearer : ∀ node ∈ front, dist node ≤ dist n)
    (beyond : ∀ node ∈ back, dist n < dist node) :
    Nearest dist k (n :: seen) (front ++
      if (front ++ back).length < k then n :: back else (n :: back).dropLast) := by
  obtain ⟨sorted, count, left, perm, farther⟩ := nearest
  have placed : (front ++ n :: back).Pairwise (dist · ≤ dist ·) := by
    simp only [List.pairwise_append, List.pairwise_cons, List.mem_cons] at sorted ⊢
    grind
  have together : (front ++ n :: (back ++ left)).Perm (n :: seen) :=
    List.perm_middle.trans (by simpa using perm)
  have lengths := perm.length_eq
  simp only [List.length_append] at count lengths ⊢
  split
  · obtain rfl : left = [] := List.length_eq_zero_iff.mp (by omega)
    refine ⟨placed, ?_, [], by simpa using together, by simp⟩
    simp only [List.length_append, List.length_cons]
    omega
  rcases List.eq_nil_or_concat' back with rfl | ⟨init, last, rfl⟩
  · refine ⟨by simpa using sorted, ?_, n :: left, by simpa using together, by simp_all⟩
    simp only [List.dropLast_singleton, List.append_nil, List.length_cons, List.length_nil] at *
    omega
  · rw [← List.cons_append, ← List.append_assoc] at placed
    rw [← List.cons_append, List.dropLast_concat]
    obtain ⟨kept, -, lost⟩ := List.pairwise_append.mp placed
    refine ⟨kept, ?_, last :: left, by simpa using together, fun node held other out => ?_⟩
    · simp only [List.length_append, List.length_cons, List.length_nil] at *
      omega
    · have least := lost node held last List.mem_cons_self
      rcases List.mem_cons.mp out with rfl | out
      · exact least
      · exact least.trans (farther last (by simp) other out)

/-- In a sorted list the search ends where the farther nodes begin. -/
theorem search_entries {dist : Node → Nat} {found : Node → Bool}
    (sorted : entries.Pairwise (dist · ≤ dist ·)) (farther : ∀ m, found m ↔ dist n < dist m) :
    ∃ front back, entries = front ++ back ∧
      search (fun i => entries[i]?.all found) 0 entries.length = front.length ∧
      (∀ node ∈ front, dist node ≤ dist n) ∧ ∀ node ∈ back, dist n < dist node := by
  have monotone {a b : Nat} (le : a ≤ b) : entries[a]?.all found → entries[b]?.all found := by
    rcases le.eq_or_lt with rfl | less
    · exact id
    by_cases inside : b < entries.length
    · have rising := List.pairwise_iff_getElem.mp sorted a b (less.trans inside) inside less
      simpa [inside, less.trans inside, farther] using fun later => later.trans_le rising
    · simp [inside]
  have outside (i : Nat) (past : entries.length ≤ i) : entries[i]?.all found = true := by
    simp [past]
  obtain ⟨below, above⟩ := search_splits monotone (Nat.zero_le _) nofun outside
  generalize search _ _ _ = ix at below above ⊢
  have inside : ix ≤ entries.length :=
    Nat.le_of_not_lt fun past => below _ past (outside _ le_rfl)
  refine ⟨entries.take ix, entries.drop ix, by simp, by simp [inside], ?_, ?_⟩ <;>
    intro node member
  · obtain ⟨i, bound, rfl⟩ := List.mem_take_iff_getElem.mp member
    rw [lt_min_iff] at bound
    simpa [bound.2, farther] using below i bound.1
  · obtain ⟨i, bound, rfl⟩ := List.mem_drop_iff_getElem.mp member
    simpa [Nat.add_comm ix i ▸ bound, farther] using above (ix + i) (Nat.le_add_right _ _)

theorem Nearest.push (nearest : Nearest (fun m => distance target.data (sha m).data) k seen entries) :
    Nearest (fun m => distance target.data (sha m).data) k (n :: seen)
      (push sha target k entries n) := by
  have order (m : Node) :=
    distcmp_pos_iff ((sha m).length_data.trans target.length_data.symm)
      ((sha n).length_data.trans target.length_data.symm)
  obtain ⟨front, back, rfl, place, nearer, beyond⟩ :=
    search_entries nearest.sorted fun m => decide_eq_true_iff.trans (order m)
  have pushed : Discover.push sha target k (front ++ back) n =
      front ++ if (front ++ back).length < k then n :: back else (n :: back).dropLast := by
    simp only [Discover.push, place]
    split
    · simp
    · cases back <;> simp
  exact pushed ▸ nearest.insert nearer beyond

end

/-- The nearest nodes of the table, in order, and no others. -/
theorem closest_exact (tab : Table Node) (sha : Node → Hash) (target : Hash) (k : Nat) :
    let nodes := tab.closest sha target k
    let dist := fun node => distance target.data (sha node).data
    nodes.length = min k tab.len ∧ nodes.Nodup ∧ (∀ node ∈ nodes, node ∈ tab.buckets.flatten) ∧
      nodes.Pairwise (dist · ≤ dist ·) ∧
      ∀ node ∈ nodes, ∀ other ∈ tab.buckets.flatten, other ∉ nodes → dist node ≤ dist other := by
  have pushed (nodes entries seen : List Node)
      (nearest : Nearest (fun m => distance target.data (sha m).data) k seen entries) :
      Nearest (fun m => distance target.data (sha m).data) k (nodes.reverse ++ seen)
        (nodes.foldl (push sha target k) entries) := by
    induction nodes generalizing entries seen with
    | nil => exact nearest
    | cons n nodes ih => simpa using ih _ _ nearest.push
  obtain ⟨sorted, count, left, perm, farther⟩ := pushed tab.buckets.flatten [] []
    ⟨.nil, by simp, [], .refl _, nofun⟩
  rw [List.append_nil] at count perm
  have same := perm.trans tab.buckets.flatten.reverse_perm
  refine ⟨?_, ?_, ?_, sorted, ?_⟩
  · exact count.trans (by rw [List.length_reverse, Table.len])
  · exact (same.nodup_iff.mpr tab.distinct).of_append_left
  · exact fun node member => same.mem_iff.mp (List.mem_append_left _ member)
  · intro node member other held out
    exact farther node member other
      ((List.mem_append.mp (same.mem_iff.mpr held)).resolve_left out)

end Linkeye.P2p.Discover
