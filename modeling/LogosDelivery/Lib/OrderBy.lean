import Mathlib

/-! # Sorted answers

`orderBy key rows` are the rows in the order of their keys, as the `ORDER BY` of a query gives
them.  When no two rows have one key the answer is strictly ascending (`ascending_orderBy`), and an
ascending list is given by its members (`Ascending.eq_of_mem_iff`): two queries with the same
members give the same answer, however they find them.  A descending order is the order of the dual
keys.

Two selections from one table have the same first rows exactly when enough common rows come before
each row in which they differ (`take_orderBy_filter_iff`).

An answer that is put together from limited answers to parts of the query is the limited answer to
the whole only if the parts do not interfere (`flatten_take_iff`). -/

namespace LogosDelivery.Lib

variable {ρ κ : Type} {key : ρ → κ}

/-- No key twice. -/
def DistinctKeys (key : ρ → κ) (rows : List ρ) : Prop := rows.Pairwise (fun x y => key x ≠ key y)

theorem DistinctKeys.filter {rows : List ρ} (h : DistinctKeys key rows) (p : ρ → Bool) :
    DistinctKeys key (rows.filter p) := List.Pairwise.filter p h

variable [LinearOrder κ]

/-- The rows in the order of their keys. -/
def orderBy (key : ρ → κ) (rows : List ρ) : List ρ :=
  rows.insertionSort (fun x y => key x ≤ key y)

/-- No key twice, and in order. -/
def Ascending (key : ρ → κ) (rows : List ρ) : Prop := rows.Pairwise (fun x y => key x < key y)

@[simp] theorem mem_orderBy {rows : List ρ} {x : ρ} : x ∈ orderBy key rows ↔ x ∈ rows :=
  List.mem_insertionSort _

theorem perm_orderBy (rows : List ρ) : (orderBy key rows).Perm rows := List.perm_insertionSort _ rows

theorem ascending_orderBy {rows : List ρ} (h : DistinctKeys key rows) :
    Ascending key (orderBy key rows) := by
  have htotal : Std.Total (fun x y : ρ => key x ≤ key y) := ⟨fun x y => le_total (key x) (key y)⟩
  have htrans : IsTrans ρ (fun x y => key x ≤ key y) := ⟨fun _ _ _ => le_trans⟩
  have hsorted : (orderBy key rows).Pairwise (fun x y => key x ≤ key y) :=
    List.pairwise_insertionSort _ rows
  have hdistinct : (orderBy key rows).Pairwise (fun x y => key x ≠ key y) :=
    (perm_orderBy rows).symm.pairwise h (fun {_ _} hxy => hxy.symm)
  exact hsorted.imp₂ (fun _ _ hle hne => lt_of_le_of_ne hle hne) hdistinct

theorem Ascending.filter {rows : List ρ} (h : Ascending key rows) (p : ρ → Bool) :
    Ascending key (rows.filter p) := List.Pairwise.filter p h

theorem Ascending.nodup {rows : List ρ} (h : Ascending key rows) : rows.Nodup :=
  List.Pairwise.imp (fun hlt heq => hlt.ne (congrArg key heq)) h

/-- An ascending list is given by its members. -/
theorem Ascending.eq_of_mem_iff {l₁ l₂ : List ρ} (h₁ : Ascending key l₁) (h₂ : Ascending key l₂)
    (hmem : ∀ x, x ∈ l₁ ↔ x ∈ l₂) : l₁ = l₂ := by
  have hperm : l₁.Perm l₂ := (List.perm_ext_iff_of_nodup h₁.nodup h₂.nodup).mpr hmem
  exact hperm.eq_of_pairwise (fun _ _ _ _ hlt hgt => absurd hlt hgt.not_gt) h₁ h₂

/-- A member that is before all the others is the first one. -/
theorem Ascending.eq_cons {l : List ρ} (h : Ascending key l) {x : ρ} (hx : x ∈ l)
    (hfirst : ∀ y ∈ l, y = x ∨ key x < key y) : ∃ rest, l = x :: rest := by
  cases l with
  | nil => exact absurd hx List.not_mem_nil
  | cons y rest =>
      rcases List.mem_cons.mp hx with rfl | hrest
      · exact ⟨rest, rfl⟩
      · rcases hfirst y List.mem_cons_self with rfl | hlt
        · exact ⟨rest, rfl⟩
        · exact absurd hlt ((List.pairwise_cons.mp h).1 x hrest).not_gt

/-- A descending list, read backwards. -/
theorem ascending_toDual_iff {rows : List ρ} :
    Ascending (fun x => OrderDual.toDual (key x)) rows ↔ Ascending key rows.reverse := by
  unfold Ascending
  rw [List.pairwise_reverse]
  exact Iff.rfl

/-- What comes after a member of an ascending list. -/
theorem Ascending.mem_after {pre rest : List ρ} {x : ρ}
    (h : Ascending key (pre ++ x :: rest)) (y : ρ) :
    y ∈ rest ↔ y ∈ pre ++ x :: rest ∧ key x < key y := by
  obtain ⟨_, hcons, hpre⟩ := List.pairwise_append.mp h
  have hrest := (List.pairwise_cons.mp hcons).1
  constructor
  · intro hy
    exact ⟨List.mem_append_right _ (List.mem_cons_of_mem _ hy), hrest y hy⟩
  · rintro ⟨hy, hlt⟩
    rcases List.mem_append.mp hy with hy | hy
    · exact absurd (hpre y hy x List.mem_cons_self) hlt.not_gt
    · rcases List.mem_cons.mp hy with rfl | hy
      · exact absurd hlt (lt_irrefl _)
      · exact hy

/-! ### The first rows of two selections -/

theorem orderBy_filter {rows : List ρ} (h : DistinctKeys key rows) (p : ρ → Bool) :
    orderBy key (rows.filter p) = (orderBy key rows).filter p := by
  refine (ascending_orderBy (h.filter p)).eq_of_mem_iff ((ascending_orderBy h).filter p) fun x => ?_
  rw [mem_orderBy, List.mem_filter, List.mem_filter, mem_orderBy]

/-- The members of an ascending list that are in both selections and before `x`. -/
def commonBefore (key : ρ → κ) (p p' : ρ → Bool) (rows : List ρ) (x : ρ) : List ρ :=
  rows.filter (fun y => p y && p' y && decide (key y < key x))

theorem commonBefore_cons_of_lt {p p' : ρ → Bool} {rows : List ρ} {x z : ρ}
    (hlt : key x < key z) (hp : p x = true) (hp' : p' x = true) :
    commonBefore key p p' (x :: rows) z = x :: commonBefore key p p' rows z :=
  List.filter_cons_of_pos (by simp [hp, hp', hlt])

theorem commonBefore_cons_of_not {p p' : ρ → Bool} {rows : List ρ} {x z : ρ}
    (hnot : (p x && p' x) = false) :
    commonBefore key p p' (x :: rows) z = commonBefore key p p' rows z :=
  List.filter_cons_of_neg (by simp [hnot])

/-- Nothing comes before the first member. -/
theorem Ascending.commonBefore_head {p p' : ρ → Bool} {rows : List ρ} {x : ρ}
    (h : Ascending key (x :: rows)) : commonBefore key p p' (x :: rows) x = [] := by
  refine List.filter_eq_nil_iff.mpr fun y hy => ?_
  have hle : key x ≤ key y := by
    rcases List.mem_cons.mp hy with rfl | hy
    · exact le_rfl
    · exact ((List.pairwise_cons.mp h).1 y hy).le
  simp [hle]

/-- A first member that only one of the selections has makes a difference. -/
theorem take_filter_cons_ne {p p' : ρ → Bool} {rows : List ρ} {x : ρ} (hnot : x ∉ rows)
    (hp : p x = true) (hp' : p' x = false) (n : ℕ) :
    ((x :: rows).filter p).take (n + 1) ≠ ((x :: rows).filter p').take (n + 1) := by
  intro heq
  rw [List.filter_cons_of_pos hp, List.filter_cons_of_neg (by simp [hp']), List.take_succ_cons] at heq
  exact hnot (List.mem_of_mem_filter (List.mem_of_mem_take (heq ▸ List.mem_cons_self)))

theorem Ascending.take_filter_iff {rows : List ρ} (h : Ascending key rows) (p p' : ρ → Bool) (n : ℕ) :
    (rows.filter p).take n = (rows.filter p').take n ↔
      ∀ x ∈ rows, p x ≠ p' x → n ≤ (commonBefore key p p' rows x).length := by
  induction rows generalizing n with
  | nil => simp
  | cons x rows ih =>
      obtain ⟨hfirst, hrest⟩ := List.pairwise_cons.mp h
      have hnot : x ∉ rows := fun hx => lt_irrefl _ (hfirst x hx)
      cases n with
      | zero => simp
      | succ n =>
        have hahead : p x ≠ p' x → ¬ ∀ z ∈ x :: rows, p z ≠ p' z →
            n + 1 ≤ (commonBefore key p p' (x :: rows) z).length := by
          intro hne hall
          have hle := hall x List.mem_cons_self hne
          rw [h.commonBefore_head] at hle
          exact Nat.not_succ_le_zero n hle
        cases hp : p x <;> cases hp' : p' x
        · -- neither selects `x`
          rw [List.filter_cons_of_neg (by simp [hp]), List.filter_cons_of_neg (by simp [hp']),
            ih hrest, List.forall_mem_cons]
          simp only [commonBefore_cons_of_not (show (p x && p' x) = false by rw [hp]; rfl), hp, hp',
            ne_eq, not_true_eq_false, false_implies, true_and]
        · exact iff_of_false (take_filter_cons_ne hnot hp' hp n).symm (hahead (by simp [hp, hp']))
        · exact iff_of_false (take_filter_cons_ne hnot hp hp' n) (hahead (by simp [hp, hp']))
        · -- both select `x`, which comes before all the others
          rw [List.filter_cons_of_pos hp, List.filter_cons_of_pos hp', List.take_succ_cons,
            List.take_succ_cons, List.cons.injEq, and_iff_right rfl, ih hrest, List.forall_mem_cons,
            and_iff_right (fun hne => absurd (hp.trans hp'.symm) hne)]
          refine forall₂_congr fun z hz => ?_
          rw [commonBefore_cons_of_lt (hfirst z hz) hp hp', List.length_cons, Nat.succ_le_succ_iff]

/-- The first `n` rows are the same exactly when each row that only one of the selections has is behind
`n` rows that both have. -/
theorem take_orderBy_filter_iff {rows : List ρ} (h : DistinctKeys key rows) (p p' : ρ → Bool) (n : ℕ) :
    (orderBy key (rows.filter p)).take n = (orderBy key (rows.filter p')).take n ↔
      ∀ x ∈ rows, p x ≠ p' x → n ≤ (commonBefore key p p' rows x).length := by
  rw [orderBy_filter h, orderBy_filter h, (ascending_orderBy h).take_filter_iff]
  have hlen : ∀ x, (commonBefore key p p' (orderBy key rows) x).length =
      (commonBefore key p p' rows x).length := fun x => ((perm_orderBy rows).filter _).length_eq
  simp only [mem_orderBy, hlen]

/-- A descending list and an ascending one that has its members begin with the same rows only where
the descending one has just the first row of the ascending one. -/
theorem Ascending.take_descending_iff {d a : List ρ} (ha : Ascending key a)
    (hd : d.Pairwise (fun x y => key y < key x)) (hsub : ∀ x ∈ d, x ∈ a) (n : ℕ) :
    d.take n = a.take n ↔ n = 0 ∨ a = [] ∨
      ∃ first rest, d = [first] ∧ a = first :: rest ∧ (n = 1 ∨ rest = []) := by
  constructor
  · intro heq
    cases n with
    | zero => exact Or.inl rfl
    | succ n =>
    cases a with
    | nil => exact Or.inr (Or.inl rfl)
    | cons first rest =>
    cases d with
    | nil => simp at heq
    | cons x d =>
        simp only [List.take_succ_cons, List.cons.injEq] at heq
        obtain ⟨rfl, htail⟩ := heq
        have hnil : d = [] := by
          refine List.eq_nil_iff_forall_not_mem.mpr fun y hy => ?_
          have hbelow := (List.pairwise_cons.mp hd).1 y hy
          rcases List.mem_cons.mp (hsub y (List.mem_cons_of_mem _ hy)) with rfl | hrest
          · exact lt_irrefl _ hbelow
          · exact lt_asymm hbelow ((List.pairwise_cons.mp ha).1 y hrest)
        subst hnil
        refine Or.inr (Or.inr ⟨x, rest, rfl, rfl, ?_⟩)
        rw [List.take_nil] at htail
        exact (List.take_eq_nil_iff.mp htail.symm).imp (congrArg Nat.succ) id
  · rintro (rfl | rfl | ⟨first, rest, rfl, rfl, rfl | rfl⟩)
    · simp
    · rw [List.eq_nil_iff_forall_not_mem.mpr fun x hx => List.not_mem_nil (hsub x hx)]
    · rfl
    · rfl

/-! ### Limited chunks -/

section Chunks

variable {α : Type}

/-- When all chunks have elements, each of them is limited by what the others leave. -/
theorem length_take_add_le {k : ℕ} (hk : 0 < k) {chunks : List (List α)}
    (hne : ∀ chunk ∈ chunks, chunk ≠ []) {chunk : List α} (h : chunk ∈ chunks) :
    min k chunk.length + (chunks.length - 1) ≤ (chunks.map (List.take k)).flatten.length := by
  have hcount : ∀ chunks : List (List α), (∀ chunk ∈ chunks, chunk ≠ []) →
      chunks.length ≤ (chunks.map (List.take k)).flatten.length := by
    intro chunks hne
    induction chunks with
    | nil => simp
    | cons c chunks ih =>
        have hc := List.length_pos_iff.mpr (hne c List.mem_cons_self)
        have hrest := ih (fun c' hc' => hne c' (List.mem_cons_of_mem _ hc'))
        rw [List.map_cons, List.flatten_cons, List.length_append, List.length_take, List.length_cons]
        omega
  induction chunks with
  | nil => exact absurd h List.not_mem_nil
  | cons c chunks ih =>
      have htail : ∀ chunk ∈ chunks, chunk ≠ [] := fun c' hc' => hne c' (List.mem_cons_of_mem _ hc')
      rw [List.map_cons, List.flatten_cons, List.length_append, List.length_take, List.length_cons]
      rcases List.mem_cons.mp h with rfl | hmem
      · have hrest := hcount chunks htail
        omega
      · have hrest := ih htail hmem
        have hpos := List.length_pos_iff.mpr (hne c List.mem_cons_self)
        have hlen := List.length_pos_of_mem hmem
        omega

theorem flatten_filter_ne_nil (chunks : List (List α)) (f : List α → List α) (hf : f [] = []) :
    ((chunks.filter (fun chunk => !chunk.isEmpty)).map f).flatten = (chunks.map f).flatten := by
  induction chunks with
  | nil => rfl
  | cons c chunks ih =>
      cases c with
      | nil => simpa [hf] using ih
      | cons x c => simp [ih]

/-- The chunks that have elements. -/
def nonEmpty (chunks : List (List α)) : List (List α) := chunks.filter (fun chunk => !chunk.isEmpty)

/-- The limited chunks together are the limited whole exactly when at most one chunk has elements or
all of them fit and are in order. -/
theorem flatten_take_iff {r : α → α → Prop} (hr : ∀ {l l' : List α}, l.Pairwise r → l'.Pairwise r →
      (∀ x, x ∈ l ↔ x ∈ l') → l = l')
    {chunks : List (List α)} {all : List α} (hchunks : ∀ chunk ∈ chunks, chunk.Pairwise r)
    (hall : all.Pairwise r) (hmem : ∀ x, x ∈ all ↔ ∃ chunk ∈ chunks, x ∈ chunk) {k : ℕ}
    (hk : 0 < k) :
    (chunks.map (List.take k)).flatten = all.take k ↔
      (nonEmpty chunks).length ≤ 1 ∨ (chunks.flatten.length ≤ k ∧ chunks.flatten.Pairwise r) := by
  have htakes : (chunks.map (List.take k)).flatten = ((nonEmpty chunks).map (List.take k)).flatten :=
    (flatten_filter_ne_nil chunks (List.take k) List.take_nil).symm
  have hne : ∀ chunk ∈ nonEmpty chunks, chunk ≠ [] := by
    intro chunk hchunk heq
    have := (List.mem_filter.mp hchunk).2
    simp [heq] at this
  have hflat : ∀ x, x ∈ all ↔ x ∈ chunks.flatten := fun x => by rw [hmem, List.mem_flatten]
  constructor
  · intro heq
    by_cases hone : (nonEmpty chunks).length ≤ 1
    · exact Or.inl hone
    · have hlen : ((nonEmpty chunks).map (List.take k)).flatten.length ≤ k := by
        rw [← htakes, heq, List.length_take]
        omega
      have hshort : ∀ chunk ∈ chunks, chunk.take k = chunk := by
        intro chunk hchunk
        by_cases hnil : chunk = []
        · rw [hnil, List.take_nil]
        · have hin : chunk ∈ nonEmpty chunks := List.mem_filter.mpr ⟨hchunk, by simp [hnil]⟩
          have hle := length_take_add_le hk hne hin
          exact List.take_of_length_le (by omega)
      rw [List.map_congr_left hshort, List.map_id'] at heq
      refine Or.inr ⟨?_, ?_⟩
      · rw [heq, List.length_take]
        omega
      · rw [heq]
        exact hall.sublist (List.take_sublist k all)
  · rintro (hone | ⟨hfits, hord⟩)
    · rw [htakes]
      have hall' : all = (nonEmpty chunks).flatten := by
        have hsame : (nonEmpty chunks).flatten = chunks.flatten := by
          have h := flatten_filter_ne_nil chunks id rfl
          rwa [List.map_id, List.map_id] at h
        match hform : nonEmpty chunks with
        | [] =>
            rw [hform] at hsame
            refine List.eq_nil_iff_forall_not_mem.mpr fun x hx => ?_
            rw [hflat, ← hsame] at hx
            exact absurd hx List.not_mem_nil
        | [chunk] =>
            rw [hform, List.flatten_singleton] at hsame
            rw [List.flatten_singleton]
            have hin : chunk ∈ nonEmpty chunks := by rw [hform]; simp
            refine hr hall (hchunks chunk (List.mem_filter.mp hin).1) fun x => ?_
            rw [hflat, ← hsame]
        | _ :: _ :: _ => simp [hform] at hone
      rw [hall']
      match hform : nonEmpty chunks with
      | [] => simp
      | [chunk] => simp
      | _ :: _ :: _ => simp [hform] at hone
    · have hshort : ∀ chunk ∈ chunks, chunk.take k = chunk := by
        intro chunk hchunk
        have hle := (List.sublist_flatten_of_mem hchunk).length_le
        exact List.take_of_length_le (by omega)
      have hwhole : chunks.flatten = all := hr hord hall (fun x => (hflat x).symm)
      rw [List.map_congr_left hshort, List.map_id', hwhole, List.take_of_length_le]
      rw [← hwhole]
      exact hfits

end Chunks

end LogosDelivery.Lib
