import Mathlib.Data.List.Range
import Mathlib.Tactic.Push

/-!
# Copies made while the original changes

A buffer is copied from its front on, piece by piece, and may be updated between two pieces.
The copy is a snapshot if it is what the buffer held at one moment. The updates then fall in
two: those up to that moment write only what is still to be copied, and those after it write
only what has been copied.

The converse needs updates that can be told apart. Every cell has a stamp, and an update
gives a stamp later than all before to each cell it changes.
-/

namespace Lib

variable {α : Type*}

/-- The first cells of a buffer. -/
def front (cells : ℕ → α) (n : ℕ) : List α := (List.range n).map cells

section Front

variable {cells b : ℕ → α} {n i : ℕ}

@[simp] theorem length_front : (front cells n).length = n := by simp [front]

theorem getElem?_front (h : i < n) : (front cells n)[i]? = some (cells i) := by
  simp [front, h]

theorem front_add (k : ℕ) :
    front cells (n + k) = front cells n ++ (List.range k).map fun i => cells (n + i) := by
  simp [front, List.range_add]

/-- A list is the front of a buffer if each of its values is the cell's. -/
theorem eq_front_iff {xs : List α} :
    xs = front b xs.length ↔ ∀ i x, xs[i]? = some x → x = b i := by
  constructor
  · intro h i x hx
    have hi := (List.getElem?_eq_some_iff.mp hx).1
    rw [h, getElem?_front hi] at hx
    exact (Option.some.inj hx).symm
  · intro h
    apply List.ext_getElem?
    intro i
    by_cases hi : i < xs.length
    · rw [getElem?_front hi, List.getElem?_eq_getElem hi]
      exact congrArg some (h i _ (List.getElem?_eq_getElem hi))
    · rw [List.getElem?_eq_none (by omega), List.getElem?_eq_none (by simp; omega)]

end Front

/-- A copy in progress, or a finished one. -/
structure Copy (α : Type*) where
  copied : List α
  /-- What the buffer has held since the copy was begun. -/
  seen : List (ℕ → α)
  /-- There has been an update that belongs to neither side of a moment. -/
  torn : Prop

namespace Copy

def start (cells : ℕ → α) : Copy α := ⟨[], [cells], False⟩

/-- The next `len` cells are copied. -/
def piece (c : Copy α) (cells : ℕ → α) (len : ℕ) : Copy α :=
  { c with copied := c.copied ++ (List.range len).map fun i => cells (c.copied.length + i) }

/-- Of the first `n` cells an update changes only copied ones, or it changes none of these and
neither has one before it. -/
def Harmless (c : Copy α) (n : ℕ) (cells cells' : ℕ → α) : Prop :=
  (∀ j, c.copied.length ≤ j → j < n → cells' j = cells j) ∨
    (c.copied = front cells c.copied.length ∧ c.copied = front cells' c.copied.length)

def update (c : Copy α) (n : ℕ) (cells cells' : ℕ → α) : Copy α :=
  { c with seen := c.seen ++ [cells'], torn := c.torn ∨ ¬c.Harmless n cells cells' }

@[simp] theorem length_piece (c : Copy α) (cells : ℕ → α) (len : ℕ) :
    (c.piece cells len).copied.length = c.copied.length + len := by
  simp [piece]

/-- What has been copied is what the buffer held at one moment. -/
def IsSnapshot (c : Copy α) : Prop := ∃ b ∈ c.seen, c.copied = front b c.copied.length

/-! ## Copies that are not torn -/

/-- There is a moment at which the buffer held what has been copied and what is left to copy. -/
def Whole (c : Copy α) (n : ℕ) (cells : ℕ → α) : Prop :=
  ∃ b ∈ c.seen, c.copied = front b c.copied.length ∧
    ∀ j, c.copied.length ≤ j → j < n → b j = cells j

section Whole

variable {c : Copy α} {n len : ℕ} {cells cells' : ℕ → α}

theorem whole_start : (start cells).Whole n cells :=
  ⟨cells, List.mem_singleton_self _, rfl, fun _ _ _ => rfl⟩

theorem Whole.piece (h : c.Whole n cells) (hlen : c.copied.length + len ≤ n) :
    (c.piece cells len).Whole n cells := by
  obtain ⟨b, hb, hcopied, hrest⟩ := h
  have hlength := c.length_piece cells len
  refine ⟨b, hb, ?_, fun j hj hjn => hrest j (by omega) hjn⟩
  -- the new cells are still those of the moment
  have hnew : (List.range len).map (fun i => cells (c.copied.length + i)) =
      (List.range len).map fun i => b (c.copied.length + i) :=
    List.map_congr_left fun i hi =>
      (hrest _ (Nat.le_add_right _ _) (by have := List.mem_range.mp hi; omega)).symm
  rw [hlength, front_add, ← hcopied, ← hnew]
  rfl

theorem Whole.update (h : c.Whole n cells) (hharmless : c.Harmless n cells cells') :
    (c.update n cells cells').Whole n cells' := by
  rcases hharmless with hlate | ⟨-, hearly⟩
  · -- the moment stays where it was
    obtain ⟨b, hb, hcopied, hrest⟩ := h
    refine ⟨b, List.mem_append_left _ hb, hcopied, fun j hj hjn => ?_⟩
    rw [hlate j hj hjn]
    exact hrest j hj hjn
  · -- the moment is now
    exact ⟨cells', List.mem_append_right _ (List.mem_singleton_self _), hearly,
      fun _ _ _ => rfl⟩

end Whole

/-! ## Torn copies -/

variable (stamp : α → ℕ)

/-- Cell `i` was copied before an update changed it, and cell `j` will have been copied after
that. Whenever the buffer held the copied cell `i`, the stamp of cell `j` was not yet `a`. -/
structure Mixed (c : Copy α) (n : ℕ) (cells : ℕ → α) (i j a : ℕ) : Prop where
  lt : j < n
  stale : ∃ x, c.copied[i]? = some x ∧ stamp x < stamp (cells i) ∧
    ∀ b ∈ c.seen, stamp (b i) ≤ stamp x → stamp (b j) < a
  fresh : a ≤ stamp (cells j)
  copied : ∀ y, c.copied[j]? = some y → a ≤ stamp y

/-- No stamp is later than `time`, and a copied cell is up to date or has been changed since. -/
structure Dated (c : Copy α) (time : ℕ) (cells : ℕ → α) : Prop where
  current : ∀ k, stamp (cells k) ≤ time
  seen : ∀ b ∈ c.seen, ∀ k, stamp (b k) ≤ time
  copied : ∀ k x, c.copied[k]? = some x → x = cells k ∨ stamp x < stamp (cells k)

/-- An update at `time`: what it changes gets a later stamp. -/
def Renews (time : ℕ) (cells cells' : ℕ → α) : Prop :=
  ∀ k, cells' k = cells k ∨ time < stamp (cells' k)

section Torn

variable {stamp} {c : Copy α} {n len time time' i j a k : ℕ} {cells cells' : ℕ → α} {x : α}

theorem getElem?_piece (h : (c.piece cells len).copied[k]? = some x) :
    c.copied[k]? = some x ∨ x = cells k := by
  rw [Copy.piece, List.getElem?_append] at h
  split_ifs at h with hk
  · exact .inl h
  · rw [List.getElem?_map, Option.map_eq_some_iff] at h
    obtain ⟨i, hi, rfl⟩ := h
    obtain ⟨hlt, rfl⟩ := List.getElem?_eq_some_iff.mp hi
    right
    rw [List.getElem_range]
    congr 1
    omega

theorem getElem?_piece_of_some (h : c.copied[k]? = some x) :
    (c.piece cells len).copied[k]? = some x := by
  rw [Copy.piece, List.getElem?_append_left (List.getElem?_eq_some_iff.mp h).1]
  exact h

theorem getElem?_piece_of_le (hle : c.copied.length ≤ k) (hlt : k < c.copied.length + len) :
    (c.piece cells len).copied[k]? = some (cells k) := by
  obtain ⟨i, rfl⟩ := Nat.exists_eq_add_of_le hle
  rw [Copy.piece, List.getElem?_append_right hle, Nat.add_sub_cancel_left, List.getElem?_map,
    List.getElem?_range (by omega)]
  rfl

theorem Renews.le (h : Renews stamp time cells cells') (hcurrent : ∀ k, stamp (cells k) ≤ time) :
    stamp (cells k) ≤ stamp (cells' k) := by
  rcases h k with hsame | hlater
  · rw [hsame]
  · exact (hcurrent k).trans hlater.le

theorem dated_start (h : ∀ k, stamp (cells k) ≤ time) : (start cells).Dated stamp time cells where
  current := h
  seen b hb := by
    rw [List.mem_singleton.mp hb]
    exact h
  copied k x hx := absurd hx (by simp [start])

theorem Dated.piece (h : c.Dated stamp time cells) :
    (c.piece cells len).Dated stamp time cells where
  current := h.current
  seen := h.seen
  copied k x hx := (getElem?_piece hx).elim (h.copied k x) .inl

theorem Dated.update (h : c.Dated stamp time cells) (hrenews : Renews stamp time cells cells')
    (htime : ∀ k, stamp (cells' k) ≤ time') (hle : time ≤ time') :
    (c.update n cells cells').Dated stamp time' cells' where
  current := htime
  seen b hb k := by
    rcases List.mem_append.mp hb with hb | hb
    · exact (h.seen b hb k).trans hle
    · rw [List.mem_singleton.mp hb]
      exact htime k
  copied k x hx := by
    rcases h.copied k x hx with rfl | hlt
    · exact (hrenews k).imp Eq.symm (h.current k).trans_lt
    · exact .inr (hlt.trans_le (hrenews.le h.current))

theorem Mixed.piece (h : c.Mixed stamp n cells i j a) :
    (c.piece cells len).Mixed stamp n cells i j a := by
  obtain ⟨x, hx, hlt, hseen⟩ := h.stale
  refine ⟨h.lt, ⟨x, getElem?_piece_of_some hx, hlt, hseen⟩, h.fresh, fun y hy => ?_⟩
  rcases getElem?_piece hy with hy | rfl
  · exact h.copied y hy
  · exact h.fresh

theorem Mixed.update (h : c.Mixed stamp n cells i j a)
    (hle : ∀ k, stamp (cells k) ≤ stamp (cells' k)) :
    (c.update n cells cells').Mixed stamp n cells' i j a := by
  obtain ⟨x, hx, hlt, hseen⟩ := h.stale
  have hlt' := hlt.trans_le (hle i)
  refine ⟨h.lt, ⟨x, hx, hlt', fun b hb hbx => ?_⟩, h.fresh.trans (hle j), h.copied⟩
  rcases List.mem_append.mp hb with hb | hb
  · exact hseen b hb hbx
  · rw [List.mem_singleton.mp hb] at hbx
    exact absurd hbx (Nat.not_le.mpr hlt')

/-- An update that is not harmless tears the copy. -/
theorem Dated.mixed (h : c.Dated stamp time cells) (hrenews : Renews stamp time cells cells')
    (hharm : ¬c.Harmless n cells cells') :
    ∃ i j a, (c.update n cells cells').Mixed stamp n cells' i j a := by
  simp only [Harmless, not_or, not_forall, not_and_or] at hharm
  obtain ⟨⟨j, hj, hjn, hchanged⟩, hstale⟩ := hharm
  have hlater : time < stamp (cells' j) := (hrenews j).resolve_left hchanged
  -- a copied cell that has been changed before or is changed now
  obtain ⟨i, x, hx, hlt⟩ : ∃ i x, c.copied[i]? = some x ∧ stamp x < stamp (cells' i) := by
    rw [eq_front_iff, eq_front_iff] at hstale
    push Not at hstale
    rcases hstale with ⟨i, x, hx, hne⟩ | ⟨i, x, hx, hne⟩
    · have hlt := (h.copied i x hx).resolve_left hne
      exact ⟨i, x, hx, hlt.trans_le (hrenews.le h.current)⟩
    · refine ⟨i, x, hx, ?_⟩
      rcases h.copied i x hx with rfl | hlt
      · exact (h.current i).trans_lt ((hrenews i).resolve_left hne.symm)
      · exact hlt.trans_le (hrenews.le h.current)
  refine ⟨i, j, time + 1, hjn, ⟨x, hx, hlt, fun b hb hbx => ?_⟩, hlater, fun y hy => ?_⟩
  · rcases List.mem_append.mp hb with hb | hb
    · exact Nat.lt_succ_of_le (h.seen b hb j)
    · rw [List.mem_singleton.mp hb] at hbx
      exact absurd hbx (Nat.not_le.mpr hlt)
  · exact absurd (List.getElem?_eq_some_iff.mp hy).1 (Nat.not_lt.mpr hj)

/-- A copy with such a pair of cells is no snapshot. -/
theorem Mixed.not_isSnapshot (h : c.Mixed stamp n cells i j a) (hlen : c.copied.length = n) :
    ¬c.IsSnapshot := by
  rintro ⟨b, hb, hcopied⟩
  obtain ⟨x, hx, -, hseen⟩ := h.stale
  have hcells := eq_front_iff.mp hcopied
  have hj : c.copied[j]? = some (b j) := by
    rw [hcopied, getElem?_front (hlen ▸ h.lt)]
  -- the moment would be before the stamp of cell `j` and after it
  have hbefore : stamp (b j) < a := hseen b hb (by rw [hcells i x hx])
  exact absurd (h.copied _ hj) (Nat.not_le.mpr hbefore)

end Torn

/-! ## Snapshots -/

/-- A copy that has been followed from its start. -/
structure Followed (c : Copy α) (n time : ℕ) (cells : ℕ → α) : Prop where
  dated : c.Dated stamp time cells
  whole : ¬c.torn → c.Whole n cells
  mixed : c.torn → ∃ i j a, c.Mixed stamp n cells i j a

section Followed

variable {stamp} {c : Copy α} {n len time time' : ℕ} {cells cells' : ℕ → α}

theorem followed_start (h : ∀ k, stamp (cells k) ≤ time) :
    (start cells).Followed stamp n time cells :=
  ⟨dated_start h, fun _ => whole_start, False.elim⟩

theorem Followed.piece (h : c.Followed stamp n time cells) (hlen : c.copied.length + len ≤ n) :
    (c.piece cells len).Followed stamp n time cells where
  dated := h.dated.piece
  whole hwhole := (h.whole hwhole).piece hlen
  mixed htorn := by
    obtain ⟨i, j, a, hmixed⟩ := h.mixed htorn
    exact ⟨i, j, a, hmixed.piece⟩

theorem Followed.update (h : c.Followed stamp n time cells)
    (hrenews : Renews stamp time cells cells') (htime : ∀ k, stamp (cells' k) ≤ time')
    (hle : time ≤ time') : (c.update n cells cells').Followed stamp n time' cells' where
  dated := h.dated.update hrenews htime hle
  whole hwhole := by
    rw [Copy.update, not_or, not_not] at hwhole
    exact (h.whole hwhole.1).update hwhole.2
  mixed htorn := by
    rcases htorn with htorn | hharm
    · obtain ⟨i, j, a, hmixed⟩ := h.mixed htorn
      exact ⟨i, j, a, hmixed.update fun _ => hrenews.le h.dated.current⟩
    · exact h.dated.mixed hrenews hharm

/-- **Snapshots.** A finished copy is what the buffer held at one moment exactly when it is not
torn. -/
theorem Followed.isSnapshot_iff (h : c.Followed stamp n time cells)
    (hlen : c.copied.length = n) : c.IsSnapshot ↔ ¬c.torn := by
  constructor
  · intro hsnapshot htorn
    obtain ⟨i, j, a, hmixed⟩ := h.mixed htorn
    exact hmixed.not_isSnapshot hlen hsnapshot
  · intro hwhole
    obtain ⟨b, hb, hcopied, -⟩ := h.whole hwhole
    exact ⟨b, hb, hcopied⟩

end Followed

end Copy

end Lib
