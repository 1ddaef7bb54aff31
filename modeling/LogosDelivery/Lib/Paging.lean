import Mathlib

/-! # Fetching a list page by page

A client asks for a page, and asks again with the cursor of each answer until an answer has none.
`Paged` relates the answers of such a sequence of requests to each other.  When every request with
the cursor of a row is answered with the next rows after it, and a cursor is given exactly when
there are more, the pages together are the whole list (`exists_paged`). -/

namespace LogosDelivery.Lib

section Requests

variable {ι ε R : Type} (ask : Option ι → Except ε R) (cursorOf : R → Option ι)

/-- The answers to a request and to those with the cursors that follow it. -/
inductive Paged : Option ι → List R → Prop
  | last {cursor : Option ι} {r : R} (h : ask cursor = .ok r) (hc : cursorOf r = none) :
      Paged cursor [r]
  | more {cursor : Option ι} {r : R} {next : ι} {rs : List R} (h : ask cursor = .ok r)
      (hc : cursorOf r = some next) (hrest : Paged (some next) rs) : Paged cursor (r :: rs)

variable {ask} {cursorOf}

/-- The answers are given by the first request. -/
theorem Paged.unique {cursor : Option ι} {rs rs' : List R} (h : Paged ask cursorOf cursor rs)
    (h' : Paged ask cursorOf cursor rs') : rs = rs' := by
  induction h generalizing rs' with
  | last h hc =>
      cases h' with
      | last h' _ => rw [Except.ok.inj (h.symm.trans h')]
      | more h' hc' _ =>
          rw [← Except.ok.inj (h.symm.trans h'), hc] at hc'
          cases hc'
  | more h hc _ ih =>
      cases h' with
      | last h' hc' =>
          rw [← Except.ok.inj (h.symm.trans h'), hc] at hc'
          cases hc'
      | more h' hc' hrest' =>
          obtain rfl := Except.ok.inj (h.symm.trans h')
          obtain rfl := Option.some.inj (hc.symm.trans hc')
          rw [ih hrest']

/-- Requests that are passed on are answered as often, each answer from the one behind it. -/
theorem Paged.passed_on {ε' R' α : Type} {ask' : Option ι → Except ε' R'} {cursorOf' : R' → Option ι}
    {shows : R → α → Prop} {shows' : R' → α → Prop}
    (hask : ∀ cursor r x, ask cursor = .ok r → shows r x →
      ∃ r', ask' cursor = .ok r' ∧ shows' r' x ∧ cursorOf' r' = cursorOf r)
    {cursor : Option ι} {rs : List R} {xs : List α} (h : Paged ask cursorOf cursor rs)
    (hshows : List.Forall₂ shows rs xs) :
    ∃ rs', Paged ask' cursorOf' cursor rs' ∧ List.Forall₂ shows' rs' xs := by
  induction h generalizing xs with
  | last h hc =>
      obtain ⟨x, later, hx, hlater, rfl⟩ := List.forall₂_cons_left_iff.mp hshows
      obtain rfl := List.forall₂_nil_left_iff.mp hlater
      obtain ⟨r', hr', hshows', hcursor⟩ := hask _ _ x h hx
      exact ⟨[r'], .last hr' (hcursor.trans hc), .cons hshows' .nil⟩
  | more h hc _ ih =>
      obtain ⟨x, later, hx, hlater, rfl⟩ := List.forall₂_cons_left_iff.mp hshows
      obtain ⟨r', hr', hshows', hcursor⟩ := hask _ _ x h hx
      obtain ⟨rs', hpaged, hall⟩ := ih hlater
      exact ⟨r' :: rs', .more hr' (hcursor.trans hc) hpaged, .cons hshows' hall⟩

end Requests

section Rows

variable {ρ ι ε R : Type} (idOf : ρ → ι)

/-- The rows that a request with this cursor is about: those after the row that it names. -/
def RowsFrom (rows : List ρ) : Option ι → List ρ → Prop
  | none, rest => rest = rows
  | some c, rest => ∃ pre x, rows = pre ++ x :: rest ∧ idOf x = c

/-- The cursor after the first rows of a list, when these are not all. -/
def cursorAfter (size : ℕ) (rest : List ρ) : Option ι :=
  if size < rest.length then (rest.take size).getLast?.map idOf else none

variable {idOf} {rows : List ρ}

theorem cursorAfter_eq_none {size : ℕ} {rest : List ρ} (h : rest.length ≤ size) :
    cursorAfter idOf size rest = none := if_neg (by omega)

/-- The rows after the last row of a page. -/
theorem RowsFrom.drop {cursor : Option ι} {rest : List ρ} (h : RowsFrom idOf rows cursor rest)
    {size : ℕ} (hsize : 0 < size) (hmore : size < rest.length) :
    ∃ next, cursorAfter idOf size rest = some next ∧
      RowsFrom idOf rows (some next) (rest.drop size) := by
  obtain ⟨n, rfl⟩ : ∃ n, size = n + 1 := ⟨size - 1, by omega⟩
  have hn : n < rest.length := by omega
  have htake : rest.take (n + 1) = rest.take n ++ [rest[n]] := by
    rw [List.take_add_one, List.getElem?_eq_getElem hn]
    rfl
  have hsplit : rest = rest.take n ++ rest[n] :: rest.drop (n + 1) := by
    rw [List.getElem_cons_drop, List.take_append_drop]
  refine ⟨idOf rest[n], ?_, ?_⟩
  · rw [cursorAfter, if_pos hmore, htake, List.getLast?_append]
    rfl
  · cases cursor with
    | none =>
        have hrows : rest = rows := h
        exact ⟨rest.take n, rest[n], hrows.symm.trans hsplit, rfl⟩
    | some c =>
        obtain ⟨pre, x, hrows, -⟩ := h
        refine ⟨pre ++ x :: rest.take n, rest[n], ?_, rfl⟩
        rw [List.append_assoc, List.cons_append, ← hsplit]
        exact hrows

/-- Page after page until the end. -/
theorem exists_paged (ask : Option ι → Except ε R) (cursorOf : R → Option ι)
    (shows : R → List ρ → Prop) {size : ℕ} (hsize : 0 < size)
    (hask : ∀ cursor rest, RowsFrom idOf rows cursor rest → ∃ r, ask cursor = .ok r ∧
      shows r (rest.take size) ∧ cursorOf r = cursorAfter idOf size rest) :
    ∃ rs pages, Paged ask cursorOf none rs ∧ List.Forall₂ shows rs pages ∧ pages.flatten = rows ∧
      ∀ page ∈ pages, page.length ≤ size := by
  -- By induction on the number of rows that are left.
  have hrest : ∀ n, ∀ cursor rest, rest.length = n → RowsFrom idOf rows cursor rest →
      ∃ rs pages, Paged ask cursorOf cursor rs ∧ List.Forall₂ shows rs pages ∧
        pages.flatten = rest ∧ ∀ page ∈ pages, page.length ≤ size := by
    intro n
    induction n using Nat.strong_induction_on with
    | _ n ih =>
        intro cursor rest hlen hfrom
        obtain ⟨r, hr, hshows, hcursor⟩ := hask cursor rest hfrom
        by_cases hmore : size < rest.length
        · obtain ⟨next, hnext, hfrom'⟩ := hfrom.drop hsize hmore
          rw [hnext] at hcursor
          have hlt : (rest.drop size).length < n := by
            rw [List.length_drop]
            omega
          obtain ⟨rs, pages, hpaged, hall, hflat, hbound⟩ := ih _ hlt _ _ rfl hfrom'
          refine ⟨r :: rs, rest.take size :: pages, .more hr hcursor hpaged, .cons hshows hall, ?_, ?_⟩
          · rw [List.flatten_cons, hflat, List.take_append_drop]
          · intro page hpage
            rcases List.mem_cons.mp hpage with rfl | hpage
            · exact List.length_take_le _ _
            · exact hbound page hpage
        · rw [cursorAfter_eq_none (by omega)] at hcursor
          refine ⟨[r], [rest.take size], .last hr hcursor, .cons hshows .nil, ?_, ?_⟩
          · rw [List.flatten_singleton, List.take_of_length_le (by omega)]
          · simp
  exact hrest _ none rows rfl rfl

theorem exists_rowsFrom_of_map {σ : Type} {idOf : σ → ι} {f : ρ → σ} {cursor : Option ι} {rest : List σ}
    (h : RowsFrom idOf (rows.map f) cursor rest) :
    ∃ rest', RowsFrom (fun x => idOf (f x)) rows cursor rest' ∧ rest = rest'.map f := by
  cases cursor with
  | none => exact ⟨rows, rfl, h⟩
  | some c =>
      obtain ⟨pre, x, hrows, hx⟩ := h
      obtain ⟨pre', post', rfl, hpre, hpost⟩ := List.map_eq_append_iff.mp hrows
      obtain ⟨x', rest', rfl, rfl, rfl⟩ := List.map_eq_cons_iff.mp hpost
      exact ⟨rest', ⟨pre', x', rfl, hx⟩, rfl⟩

end Rows

end LogosDelivery.Lib
