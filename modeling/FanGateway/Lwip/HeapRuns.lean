import FanGateway.Lwip.HeapCalls

/-!
# Runs of the heap

Programs that free and trim only what they own, and write within it, share the heap with the
structures it rests on and with each other. In every such run each of them finds in its memory what
it wrote there, an allocation is refused only where no free block is large enough, and what has
been given back is whole again.
-/

namespace FanGateway.Lwip

open Function (update)
open Lib Lib.Block

namespace MemHeap

variable {base ram : Ram} {h : MemHeap} {kept : ℕ → Option (List UInt8)} {d d' : List UInt8}
  {p : ℕ}

/-- Memory that is owned lies behind the `struct mem` of a block. -/
theorem Becomes.exists_block (hb : h.Becomes base kept) (hp : kept p = some d) :
    ∃ xs n ys, h.Represents base (xs ++ ⟨n, some d⟩ :: ys) ∧
      contents 8 (xs ++ ⟨n, some d⟩ :: ys) = kept ∧ p = extent xs + 8 := by
  obtain ⟨bs, hr, rfl⟩ := hb
  obtain ⟨xs, n, ys, rfl, rfl⟩ := exists_of_contents hp
  exact ⟨xs, n, ys, hr, rfl, Nat.add_comm 8 _⟩

/-- A write within the memory a program owns changes what is kept there. -/
theorem Becomes.refill (hb : h.Becomes base kept) (hp : kept p = some d)
    (hlen : d'.length = d.length) (hsame : ∀ a, a < p ∨ p + d.length ≤ a → ram a = h.ram a)
    (hholds : ram.Holds p d') : Becomes base ⟨ram, h.lfree⟩ (update kept p (some d')) := by
  obtain ⟨xs, n, ys, hr, rfl, rfl⟩ := hb.exists_block hp
  have hdata : d.length + 8 ≤ n := hr.starts.fits.data d rfl
  refine ⟨_, represents_refill hr (fun a ha => hsame a (by omega)) (by omega) hholds, ?_⟩
  rw [Nat.add_comm, update_contents hr.pos]

/-- A program that is given memory keeps there what it finds. -/
theorem Becomes.memMalloc (hb : h.Becomes base kept) (request : UInt16) {n : ℕ}
    (hn : n ≤ dataSize request) :
    ∃ h' q, memMalloc request h = some (h', q) ∧
      h'.Becomes base (MemState.gain h'.ram n kept q) := by
  obtain ⟨bs, hr, rfl⟩ := hb
  rcases memMalloc_cases hr request with ⟨-, heq⟩ | ⟨xs, m, ys, h', -, rfl, -, -, heq, -, hd⟩
  · exact ⟨h, none, heq, bs, hr, rfl⟩
  · exact ⟨h', _, heq, hd _ (by rwa [Ram.length_bytes]) Ram.holds_bytes⟩

/-- The memory that is to be cleared is cleared. -/
theorem Becomes.memCalloc (hb : h.Becomes base kept) {count size : UInt16}
    (hle : count.toNat * size.toNat ≤ 65532) :
    ∃ h' q, memCalloc count size h = some (h', q) ∧
      h'.Becomes base (MemState.gain h'.ram (count.toNat * size.toNat) kept q) := by
  have hproduct : (count * size).toNat = count.toNat * size.toNat := by
    rw [UInt16.toNat_mul, Nat.mod_eq_of_lt (by omega)]
  have hfits := (@le_dataSize_iff (count * size)).mpr (by omega)
  rw [hproduct] at hfits
  obtain ⟨h', q, heq, hb'⟩ := hb.memMalloc (count * size) hfits
  rw [MemHeap.memCalloc, heq]
  cases q with
  | none => exact ⟨h', none, rfl, hb'⟩
  | some q =>
    refine ⟨_, _, rfl, ?_⟩
    -- what the program finds afterwards are the bytes that have been cleared
    have hholds := @Ram.holds_bytes (h'.ram.memset q 0 (count.toNat * size.toNat))
      (count.toNat * size.toNat) q
    have hrefill := hb'.refill (Function.update_self q _ _)
      (by rw [Ram.length_bytes, Ram.length_bytes]) (fun a ha => ?_) hholds
    · rwa [MemState.gain, Function.update_idem] at hrefill
    · rw [Ram.length_bytes] at ha
      exact if_neg (by omega)

end MemHeap

/-! ## The blocks that could serve a request -/

/-- The `struct mem`s of a heap, and its end. -/
inductive Ram.Reached (r : Ram) : ℕ → Prop
  | first : Reached r 0
  | next {p : ℕ} : Reached r p → p ≠ memSizeAligned → Reached r (r.mem p).next

/-- A free block with room for data of a size. -/
def Ram.Serves (r : Ram) (size p : ℕ) : Prop :=
  r.Reached p ∧ p ≠ memSizeAligned ∧ (r.mem p).used = 0 ∧ p + size + 8 ≤ (r.mem p).next

namespace MemHeap

variable {base : Ram} {h : MemHeap} {bs : List HeapBlock} {p size : ℕ}

/-- The `struct mem`s are those before the blocks. -/
theorem Represents.reached_iff (hr : h.Represents base bs) :
    h.ram.Reached p ↔ ∃ xs ys, bs = xs ++ ys ∧ p = extent xs := by
  constructor
  · intro hp
    induction hp with
    | first => exact ⟨[], bs, rfl, rfl⟩
    | next _ hne ih =>
      obtain ⟨xs, ys, rfl, rfl⟩ := ih
      cases ys with
      | nil =>
        have hend := hr.extent
        rw [List.append_nil] at hend
        exact absurd hend hne
      | cons b ys =>
        refine ⟨xs ++ [b], ys, by rw [List.append_assoc, List.singleton_append], ?_⟩
        rw [hr.starts.next, extent_append, extent_cons, extent_nil, Nat.add_zero]
  · rintro ⟨xs, ys, rfl, rfl⟩
    induction xs using List.reverseRecOn generalizing ys with
    | nil => exact .first
    | append_singleton xs b ih =>
      rw [List.append_assoc, List.singleton_append] at hr
      have hend := hr.end_le
      have hpos := hr.starts.fits.le_size
      have hlast := Ram.Reached.next (ih _ hr) (by omega)
      rwa [hr.starts.next, ← Nat.add_zero b.size, ← extent_nil, ← extent_cons,
        ← extent_append] at hlast

/-- The blocks that could serve a request are the free ones that are large enough. -/
theorem Represents.serves_iff (hr : h.Represents base bs) :
    h.ram.Serves size p ↔ ∃ xs n ys, bs = xs ++ ⟨n, none⟩ :: ys ∧ p = extent xs ∧ size + 8 ≤ n := by
  constructor
  · rintro ⟨hp, hne, hused, hroom⟩
    obtain ⟨xs, ys, rfl, rfl⟩ := hr.reached_iff.mp hp
    cases ys with
    | nil =>
      have hend := hr.extent
      rw [List.append_nil] at hend
      exact absurd hend hne
    | cons b ys =>
      rw [hr.starts.next] at hroom
      refine ⟨xs, b.size, ys, by rw [← hr.starts.used.mp hused], rfl, by omega⟩
  · rintro ⟨xs, n, ys, rfl, rfl, hn⟩
    have hend := hr.end_le
    have hnext : (h.ram.mem (extent xs)).next = extent xs + n := hr.starts.next
    simp only at hend
    refine ⟨hr.reached_iff.mpr ⟨xs, _, rfl, rfl⟩, by omega, hr.starts.used.mpr rfl, by omega⟩

end MemHeap

namespace MemState

open MemHeap

variable {base : Ram} {s t : MemState} {c : MemCall} {es : List MemCall}

/-- What the programs keep to: sizes that do not wrap when they are aligned, and their own
memory. -/
def Rules (s : MemState) : MemCall → Prop
  | .malloc size => size.toNat ≤ 65532
  | .calloc count size => count.toNat * size.toNat ≤ 65532
  | .free none => True
  | .free (some rmem) => s.owned rmem ≠ none
  | .trim rmem newsize => ∃ data ∈ s.owned rmem, newsize.toNat ≤ data.length
  | .write rmem i _ => ∃ data ∈ s.owned rmem, i < data.length

instance rulesDecidable (s : MemState) : (c : MemCall) → Decidable (s.Rules c)
  | .malloc _ => inferInstanceAs (Decidable (_ ≤ _))
  | .calloc _ _ => inferInstanceAs (Decidable (_ ≤ _))
  | .free none => inferInstanceAs (Decidable True)
  | .free (some _) => inferInstanceAs (Decidable (_ ≠ _))
  | .trim _ _ => inferInstanceAs (Decidable (∃ _ ∈ _, _))
  | .write _ _ _ => inferInstanceAs (Decidable (∃ _ ∈ _, _))

/-- The heap stands for what the programs keep. -/
def Sound (base : Ram) (s : MemState) : Prop := s.heap.Becomes base s.owned

theorem sound_init : Sound base (machine base).init := by
  refine ⟨_, represents_memInit base, ?_⟩
  funext a
  simp [contents, machine]

theorem step_malloc {heap : MemHeap} {q : Option ℕ} {size : UInt16}
    (h : memMalloc size s.heap = some (heap, q)) :
    s.step (.malloc size) = some ⟨heap, gain heap.ram size.toNat s.owned q⟩ := by
  rw [MemState.step, h, Option.map_some]

/-- Every call within the rules ends, and leaves what the programs keep. -/
theorem Sound.step (hs : Sound base s) (hrules : s.Rules c) :
    ∃ t, s.step c = some t ∧ Sound base t := by
  cases c with
  | malloc size =>
    obtain ⟨h', q, heq, hb⟩ := hs.memMalloc size (le_dataSize_iff.mpr hrules)
    exact ⟨_, step_malloc heq, hb⟩
  | calloc count size =>
    obtain ⟨h', q, heq, hb⟩ := hs.memCalloc hrules
    refine ⟨⟨h', gain h'.ram (count.toNat * size.toNat) s.owned q⟩, ?_, hb⟩
    rw [MemState.step, heq, Option.map_some]
  | free rmem =>
    cases rmem with
    | none => exact ⟨_, rfl, hs⟩
    | some p =>
      obtain ⟨d, hd⟩ := Option.ne_none_iff_exists'.mp hrules
      obtain ⟨xs, n, ys, hr, hkept, rfl⟩ := hs.exists_block hd
      refine ⟨_, rfl, ?_⟩
      have hfree := becomes_memFree hr
      rwa [hkept] at hfree
  | trim rmem newsize =>
    obtain ⟨d, hd, hle⟩ := hrules
    rw [Option.mem_def] at hd
    obtain ⟨xs, n, ys, hr, hkept, rfl⟩ := hs.exists_block hd
    obtain ⟨h', heq, hb⟩ := becomes_memTrim hr hle
    refine ⟨_, rfl, ?_⟩
    rw [Sound, heq]
    simp only [reduceCtorEq, if_false, change, hd, Option.map_some]
    rwa [hkept] at hb
  | write rmem i x =>
    obtain ⟨d, hd, hi⟩ := hrules
    rw [Option.mem_def] at hd
    refine ⟨_, rfl, ?_⟩
    rw [Sound, change, hd, Option.map_some]
    have hholds : s.heap.ram.Holds rmem d := by
      obtain ⟨xs, n, ys, hr, -, rfl⟩ := hs.exists_block hd
      exact hr.starts.holds d rfl
    refine hs.refill hd (List.length_set ..) (fun a ha => ?_) (hholds.set hi)
    exact Function.update_of_ne (by omega) _ _

/-- Every run within the rules leaves a heap that stands for what the programs keep. -/
theorem sound_run (h : (machine base).Exec Rules (machine base).init es s) : Sound base s := by
  refine h.invariant sound_init fun s c t hs hrules hstep => ?_
  obtain ⟨t', heq, ht⟩ := hs.step hrules
  obtain rfl := Option.some.inj (hstep.symm.trans heq)
  exact ht

/-- **Memory is kept.** In every run within the rules each piece of memory that a program owns is
aligned, lies in the heap, holds what the program wrote there, and ends before the next begins;
every further call within the rules ends; and no byte behind the heap has changed. -/
theorem memory_kept (h : (machine base).Exec Rules (machine base).init es s) :
    (∀ p d, s.owned p = some d → p % 4 = 0 ∧ 8 ≤ p ∧ p + d.length ≤ memSizeAligned ∧
      s.heap.ram.bytes p d.length = d ∧
      ∀ q e, s.owned q = some e → p < q → p + d.length + 8 ≤ q) ∧
    (∀ c, s.Rules c → (s.step c).isSome) ∧
    ∀ a, memSizeAligned + 8 ≤ a → s.heap.ram a = base a := by
  have hs := sound_run h
  refine ⟨fun p d hd => ?_, fun c hc => ?_, fun a ha => ?_⟩
  · obtain ⟨xs, n, ys, hr, hkept, rfl⟩ := hs.exists_block hd
    have hdata : d.length + 8 ≤ n := hr.starts.fits.data d rfl
    have hend := hr.end_le
    have hdvd : 4 ∣ extent xs := dvd_extent fun c hc =>
      (hr.linked.fits c (List.mem_append_left _ hc)).dvd_size
    simp only at hend
    refine ⟨by omega, by omega, by omega, ?_, fun q e he hlt => ?_⟩
    · exact (hr.starts.holds d rfl).bytes_eq
    · rw [← hkept] at he
      have hle := le_of_contents he (by omega)
      simp only at hle
      omega
  · obtain ⟨t, heq, -⟩ := hs.step hc
    rw [heq, Option.isSome_some]
  · obtain ⟨bs, hr, -⟩ := hs
    exact hr.outside a ha

/-- Two programs: one writes to its memory and gives most of it back, and the other gets it. -/
def sharing : List MemCall :=
  [.malloc 40, .write 8 3 7, .malloc 5, .trim 8 10, .calloc 2 6, .free (some 56)]

theorem sharing_runs : (((machine fun _ => 170).restrict Rules).run (machine fun _ => 170).init
    sharing).isSome = true := by
  decide +kernel

/-- The state after the run. -/
def shared : MemState :=
  (((machine fun _ => 170).restrict Rules).run (machine fun _ => 170).init sharing).get
    sharing_runs

theorem exec_shared :
    (machine fun _ => 170).Exec Rules (machine fun _ => 170).init sharing shared :=
  Lib.Machine.exec_of_run_restrict (Option.some_get sharing_runs).symm

/-- What is kept after the run, where the next request is served, and that of a run of two calls. -/
theorem shared_facts :
    shared.owned 8 = some [170, 170, 170, 7, 170, 170, 170, 170, 170, 170] ∧
      shared.owned 28 = some (List.replicate 12 0) ∧
        (memMalloc 100 shared.heap).map Prod.snd = some (some 56) ∧
          (memMalloc 5 (memInit fun _ => 170)).map Prod.snd = some (some 8) := by
  decide +kernel

theorem memory_kept_shared :
    shared.heap.ram.bytes 28 12 = List.replicate 12 0 ∧ (8 + 10 + 8 ≤ 28) := by
  obtain ⟨hkept, -, -⟩ := memory_kept exec_shared
  obtain ⟨h8, h28, -, -⟩ := shared_facts
  have hbytes := (hkept 28 _ h28).2.2.2.1
  rw [List.length_replicate] at hbytes
  exact ⟨hbytes, (hkept 8 _ h8).2.2.2.2 28 _ h28 (by decide)⟩

/-- **First fit.** In every run within the rules an allocation ends. It is refused if and only if
nothing is asked for or no free block is large enough, and else is served from the lowest of
these. -/
theorem malloc_first_fit (h : (machine base).Exec Rules (machine base).init es s)
    (request : UInt16) :
    ∃ heap q, memMalloc request s.heap = some (heap, q) ∧
      (q = none ↔ request = 0 ∨ ∀ p, ¬ s.heap.ram.Serves (dataSize request) p) ∧
      ∀ a, q = some a → ∃ p, a = p + 8 ∧ s.heap.ram.Serves (dataSize request) p ∧
        (∀ b, b < p → ¬ s.heap.ram.Serves (dataSize request) b) ∧
        a + dataSize request ≤ (heap.ram.mem p).next := by
  obtain ⟨bs, hr, hkept⟩ := sound_run h
  rcases memMalloc_cases hr request with ⟨hnone, heq⟩ |
    ⟨xs, n, ys, h', hrequest, rfl, hbefore, hn, heq, hram, hd⟩
  · refine ⟨_, none, heq, iff_of_true rfl (hnone.imp_right fun hsmall p hp => ?_), by simp⟩
    obtain ⟨xs, n, ys, rfl, rfl, hn⟩ := hr.serves_iff.mp hp
    exact absurd (hsmall _ (List.mem_append_right _ List.mem_cons_self) rfl) (Nat.not_lt.mpr hn)
  · have hserves : s.heap.ram.Serves (dataSize request) (extent xs) :=
      hr.serves_iff.mpr ⟨xs, n, ys, rfl, rfl, hn⟩
    refine ⟨h', _, heq, iff_of_false (by simp) ?_, fun a ha => ?_⟩
    · rintro (hzero | hall)
      · exact hrequest hzero
      · exact hall _ hserves
    · obtain rfl := Option.some.inj ha
      refine ⟨extent xs, rfl, hserves, fun b hb hserves' => ?_, ?_⟩
      · obtain ⟨us, m, vs, hsame, rfl, hm⟩ := hr.serves_iff.mp hserves'
        have hmem := mem_of_extent_lt hsame.symm hb
        exact absurd (hbefore _ hmem rfl) (Nat.not_lt.mpr hm)
      · obtain ⟨hmin, hdvd⟩ := dataSize_spec request
        rw [hram]
        exact le_next_takeMem hr.toLists hmin hdvd hn

theorem malloc_first_fit_shared :
    ∃ p, 56 = p + 8 ∧ shared.heap.ram.Serves (dataSize 100) p ∧
      ∀ b, b < p → ¬ shared.heap.ram.Serves (dataSize 100) b := by
  obtain ⟨heap, q, heq, -, hserved⟩ := malloc_first_fit exec_shared 100
  have hq := shared_facts.2.2.1
  rw [heq, Option.map_some] at hq
  obtain ⟨p, hp, hserves, hlowest, -⟩ := hserved 56 (Option.some.inj hq)
  exact ⟨p, hp, hserves, hlowest⟩

/-- **Nothing is lost.** In every run within the rules that leaves nothing owned, the heap serves
what it serves at the start, from its first bytes on. -/
theorem given_back (h : (machine base).Exec Rules (machine base).init es s)
    (hnone : ∀ p, s.owned p = none) (request : UInt16) :
    (∃ heap, memMalloc request s.heap = some (heap, some 8)) ↔
      request ≠ 0 ∧ (request.toNat ≤ 6136 ∨ 65532 < request.toNat) := by
  obtain ⟨bs, hr, hkept⟩ := sound_run h
  have hfree : ∀ c ∈ bs, c.data = none :=
    free_of_contents (s := 8) hr.linked.pos fun a => by rw [hkept, hnone]
  -- one block is left, and it fills the heap
  obtain rfl : bs = [⟨memSizeAligned, none⟩] := by
    match bs, hr.merged.length_le hfree with
    | [], _ => exact absurd hr.extent (by decide)
    | [⟨n, x⟩], _ =>
      obtain rfl : x = none := hfree _ List.mem_cons_self
      have hn : n + 0 = memSizeAligned := hr.extent
      rw [← hn, Nat.add_zero]
  have hfits : dataSize request + 8 ≤ memSizeAligned ↔
      request.toNat ≤ 6136 ∨ 65532 < request.toNat := by
    have hlt := request.toNat_lt
    rw [memSizeAligned_eq, dataSize, lwipMemAlignSize, minSizeAligned]
    omega
  rw [← hfits]
  rcases memMalloc_cases hr request with ⟨hrefused, heq⟩ |
    ⟨xs, n, ys, h', hrequest, hbs, -, hn, heq, -⟩
  · rw [heq]
    refine iff_of_false (by simp) fun hserved => ?_
    rcases hrefused with hzero | hsmall
    · exact hserved.1 hzero
    · exact absurd (hsmall _ List.mem_cons_self rfl) (Nat.not_lt.mpr hserved.2)
  · have hmem : (⟨n, none⟩ : HeapBlock) ∈ [(⟨memSizeAligned, none⟩ : HeapBlock)] :=
      hbs ▸ List.mem_append_right _ List.mem_cons_self
    obtain rfl : n = memSizeAligned := by simpa using hmem
    obtain rfl : xs = [] := by
      have hlength := congrArg List.length hbs
      simp only [List.length_append, List.length_cons, List.length_nil] at hlength
      exact List.eq_nil_of_length_eq_zero (by omega)
    rw [heq]
    exact iff_of_true ⟨h', rfl⟩ ⟨hrequest, hn⟩

theorem given_back_after_one :
    ∃ s, (machine fun _ => 170).Exec Rules (machine fun _ => 170).init
      ([] ++ [.malloc 5] ++ [.free (some 8)]) s ∧
        ∃ heap, memMalloc 6136 s.heap = some (heap, some 8) := by
  obtain ⟨⟨h', q⟩, heq, hq⟩ := Option.map_eq_some_iff.mp shared_facts.2.2.2
  obtain rfl : q = some 8 := hq
  have hfirst : (machine fun _ => 170).Exec Rules (machine fun _ => 170).init ([] ++ [.malloc 5])
      ⟨h', gain h'.ram (UInt16.toNat 5) (fun _ => none) (some 8)⟩ :=
    .snoc .nil (show UInt16.toNat 5 ≤ 65532 by decide)
      (@step_malloc (machine fun _ => 170).init h' (some 8) 5 heq)
  have hexec := hfirst.snoc (m := machine fun _ => 170) (e := .free (some 8))
    (by simp [Rules, gain]) rfl
  have hnone (p : ℕ) : lose (gain h'.ram (UInt16.toNat 5) (fun _ => none) (some 8)) (some 8) p =
      none := by
    rw [lose, gain, Function.update_idem, Function.update_apply, ite_self]
  obtain ⟨heap, hheap⟩ := (given_back hexec hnone 6136).mpr ⟨by simp, by simp⟩
  exact ⟨_, hexec, heap, hheap⟩

end MemState

end FanGateway.Lwip
