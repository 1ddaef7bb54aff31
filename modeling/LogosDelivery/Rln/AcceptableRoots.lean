import LogosDelivery.Lib.ByteOrder
import LogosDelivery.Lib.Runs
import LogosDelivery.Rln.NullifierLog

/-! # The window of acceptable roots

`updateRoots` and `updateRecentRoots` of `group_manager.nim`.  Each awaits one reply of the contract
and then changes `validRoots` without another await, so a sequence of calls is the sequence of
these changes.  The deque is a list with the oldest root first.

`updateRecentRoots` skips the roots of a reply that it takes for known: it looks for the oldest of
them near the end of `validRoots`, and takes as many as follow there for the same roots.  That is
right along one chain whose roots all differ (`continues_of_chain`), but not after a reorganisation
(`reorganised_root_missing`), nor when the window has skipped a root.  `updateRoots` makes room only
where the window is already too long, so that it can grow to one root more than
`AcceptableRootWindowSize`.  `upToDate_iff` says of any run whether this happens. -/

namespace LogosDelivery.Rln.AcceptableRoots

open Lib

/-- Acceptable roots for merkle root validation of incoming messages. -/
def AcceptableRootWindowSize : ℕ := 50

abbrev UInt256 := Fin (2 ^ 256)

/-- The bytes of the number in memory, which `MerkleNode` reads as the same number. -/
def UInt256ToField (v : UInt256) : MerkleNode := v

def fromBytesBE (bytes : List (Fin 256)) : UInt256 :=
  Fin.ofNat _ (bytes.foldl (fun v b => 256 * v + b.val) 0)

/-- The result of the call comes with the new `validRoots`. -/
def updateRoots (rootRes : Except String UInt256) (validRoots : List MerkleNode) :
    List MerkleNode × Bool :=
  match rootRes with
  | .error _ => (validRoots, false)
  | .ok root =>
      let merkleRoot := UInt256ToField root
      match validRoots.getLast? with
      | none => ([merkleRoot], true)
      | some last =>
          if last ≠ merkleRoot then
            ((if AcceptableRootWindowSize < validRoots.length then validRoots.tail
              else validRoots) ++ [merkleRoot], true)
          else (validRoots, false)

/-- The roots of the reply, oldest first and without the zeros: the loop over the chunks counts
down. -/
def newRootsDequeOrder (bytes : List (Fin 256)) : List MerkleNode :=
  (List.range (bytes.length / 32)).reverse.filterMap (fun chunk =>
    let u := fromBytesBE ((bytes.drop (32 * chunk)).take 32)
    if u = 0 then none else some (UInt256ToField u))

/-- How far from the end of `validRoots` the first one of the new roots is found. -/
def matchLen (validRoots newRoots : List MerkleNode) (overlap : ℕ) : ℕ :=
  match (List.range' (validRoots.length - overlap) overlap).find? (fun startIdx =>
      decide (validRoots[startIdx]? = newRoots[0]?)) with
  | some startIdx => validRoots.length - startIdx
  | none => 0

/-- `while g.validRoots.len > AcceptableRootWindowSize: discard g.validRoots.popFirst()`. -/
def trim : List MerkleNode → List MerkleNode
  | [] => []
  | root :: roots =>
      if AcceptableRootWindowSize < (root :: roots).length then trim roots else root :: roots

def updateRecentRoots (fetched : Except String (List (Fin 256))) (validRoots : List MerkleNode) :
    List MerkleNode × Bool :=
  match fetched with
  | .error _ => (validRoots, false)
  | .ok bytes =>
      if bytes.length % 32 ≠ 0 then (validRoots, false)
      else
        let newRoots := newRootsDequeOrder bytes
        if newRoots.length = 0 then (validRoots, false)
        else
          let overlap := min validRoots.length newRoots.length
          let toAdd := newRoots.drop (matchLen validRoots newRoots overlap)
          if toAdd.length = 0 then (validRoots, false)
          else (trim (validRoots ++ toAdd), true)

/-! ### Calls and replies -/

/-- The array of the contract, as it is returned. -/
def encode (newestFirst : List UInt256) : List (Fin 256) :=
  newestFirst.flatMap (fun root => bigEndian 32 root.val)

/-- What `getRecentRoots()` brings: an error, bytes that are no array of roots, or any array of at
most `AcceptableRootWindowSize` roots and any zeros. -/
inductive Reply where
  | failed (error : String)
  | malformed (bytes : List (Fin 256)) (h : bytes.length % 32 ≠ 0)
  | roots (newestFirst : List UInt256)
      (h : (newestFirst.filter (· ≠ 0)).length ≤ AcceptableRootWindowSize)

def Reply.fetched : Reply → Except String (List (Fin 256))
  | .failed error => .error error
  | .malformed bytes _ => .ok bytes
  | .roots newestFirst _ => .ok (encode newestFirst)

def Reply.newestFirst : Reply → List UInt256
  | .roots newestFirst _ => newestFirst
  | _ => []

inductive Call where
  | updateRoots (rootRes : Except String UInt256)
  | updateRecentRoots (reply : Reply)

def step (validRoots : List MerkleNode) : Call → List MerkleNode
  | .updateRoots rootRes => (updateRoots rootRes validRoots).1
  | .updateRecentRoots reply => (updateRecentRoots reply.fetched validRoots).1

/-- `validRoots` after the calls. -/
def after (calls : List Call) : List MerkleNode := run step [] calls

variable {validRoots newRoots : List MerkleNode}

/-! ### What the reply brings -/

/-- The roots of an array as they are compared with `validRoots`. -/
def oldestFirst (newestFirst : List UInt256) : List MerkleNode :=
  (newestFirst.reverse.filter (· ≠ 0)).map UInt256ToField

theorem fromBytesBE_bigEndian (root : UInt256) : fromBytesBE (bigEndian 32 root.val) = root := by
  have hlt : root.val < 256 ^ 32 := root.isLt
  apply Fin.ext
  rw [fromBytesBE, foldl_bigEndian, Nat.mod_eq_of_lt hlt, Nat.zero_mul, Nat.zero_add]
  exact Nat.mod_eq_of_lt root.isLt

theorem length_encode (newestFirst : List UInt256) :
    (encode newestFirst).length = 32 * newestFirst.length :=
  length_flatMap_of_length (fun root : UInt256 => length_bigEndian 32 root.val) newestFirst

theorem newRootsDequeOrder_encode (newestFirst : List UInt256) :
    newRootsDequeOrder (encode newestFirst) = oldestFirst newestFirst := by
  have hchunks : (encode newestFirst).length / 32 = newestFirst.length := by
    rw [length_encode]
    omega
  have hread : (List.range newestFirst.length).map
      (fun chunk => fromBytesBE (((encode newestFirst).drop (32 * chunk)).take 32)) =
        newestFirst := by
    refine List.ext_getElem (by simp) (fun chunk h h' => ?_)
    rw [List.getElem_map, List.getElem_range, encode,
      take_drop_flatMap (fun root => length_bigEndian 32 root.val) newestFirst chunk h',
      fromBytesBE_bigEndian]
  -- the loop looks at each chunk only through the number it reads there
  have hloop : newRootsDequeOrder (encode newestFirst) =
      (newestFirst.reverse).filterMap
        (fun u => if u = 0 then none else some (UInt256ToField u)) := by
    rw [newRootsDequeOrder, hchunks]
    conv_rhs => rw [← hread, ← List.map_reverse, List.filterMap_map]
    rfl
  rw [hloop, oldestFirst]
  induction newestFirst.reverse with
  | nil => rfl
  | cons u us ih => by_cases hu : u = 0 <;> simp [hu, ih]

theorem length_oldestFirst (newestFirst : List UInt256) :
    (oldestFirst newestFirst).length = (newestFirst.filter (· ≠ 0)).length := by
  rw [oldestFirst, List.length_map, List.filter_reverse, List.length_reverse]

theorem mem_oldestFirst {newestFirst : List UInt256} {root : MerkleNode} :
    root ∈ oldestFirst newestFirst ↔ ∃ u ∈ newestFirst, u ≠ 0 ∧ UInt256ToField u = root := by
  simp [oldestFirst, and_assoc]

theorem getLast?_oldestFirst (newestFirst : List UInt256) :
    (oldestFirst newestFirst).getLast? = (newestFirst.find? (· ≠ 0)).map UInt256ToField := by
  rw [oldestFirst, List.getLast?_map, List.filter_reverse, List.getLast?_reverse,
    List.head?_filter]

/-! ### What is skipped and what is dropped -/

theorem trim_eq (roots : List MerkleNode) : trim roots = roots.rtake AcceptableRootWindowSize := by
  induction roots with
  | nil => rfl
  | cons root roots ih =>
      rw [trim]
      split_ifs with hlen
      · rw [ih, List.rtake, List.rtake, List.length_cons, Nat.succ_sub (by simpa using hlen),
          List.drop_succ_cons]
      · rw [List.rtake, Nat.sub_eq_zero_of_le (by omega), List.drop_zero]

/-- The end of `validRoots` from the oldest new root on, where it is looked for among as many roots
as there are new ones. -/
def stretch (validRoots newRoots : List MerkleNode) : List MerkleNode :=
  (validRoots.rtake newRoots.length).dropWhile (fun root => decide (newRoots[0]? ≠ some root))

theorem stretch_suffix (validRoots newRoots : List MerkleNode) :
    stretch validRoots newRoots <:+ validRoots :=
  (List.dropWhile_suffix _).trans (List.drop_suffix _ _)

theorem length_stretch_le (validRoots newRoots : List MerkleNode) :
    (stretch validRoots newRoots).length ≤ newRoots.length := by
  have hle := (List.dropWhile_sublist (fun root => decide (newRoots[0]? ≠ some root))
    (l := validRoots.rtake newRoots.length)).length_le
  have htake : (validRoots.rtake newRoots.length).length ≤ newRoots.length := by
    rw [List.rtake, List.length_drop]
    omega
  exact hle.trans htake

theorem matchLen_eq_length (newRoots : List MerkleNode) : ∀ overlap ≤ validRoots.length,
    matchLen validRoots newRoots overlap =
      ((validRoots.drop (validRoots.length - overlap)).dropWhile
        (fun root => decide (newRoots[0]? ≠ some root))).length
  | 0, _ => by simp [matchLen]
  | overlap + 1, hle => by
      have hi : validRoots.length - (overlap + 1) < validRoots.length := by omega
      have hnext : validRoots.length - (overlap + 1) + 1 = validRoots.length - overlap := by omega
      have ih := matchLen_eq_length newRoots overlap (by omega)
      rw [matchLen, hnext.symm] at ih
      rw [matchLen, List.range'_succ, List.find?_cons, List.drop_eq_getElem_cons hi,
        List.dropWhile_cons, List.getElem?_eq_getElem hi]
      by_cases hroot : newRoots[0]? = some validRoots[validRoots.length - (overlap + 1)]
      · simp [hroot]
      · have hroot' : ¬ some validRoots[validRoots.length - (overlap + 1)] = newRoots[0]? :=
          fun h => hroot h.symm
        simp only [hroot', decide_false, hroot, ne_eq, not_false_eq_true, decide_true, if_true]
        exact ih

theorem matchLen_eq (validRoots newRoots : List MerkleNode) :
    matchLen validRoots newRoots (min validRoots.length newRoots.length) =
      (stretch validRoots newRoots).length := by
  rw [matchLen_eq_length newRoots _ (Nat.min_le_left _ _), stretch, List.rtake]
  congr 3
  omega

theorem length_rtake_le (n : ℕ) (roots : List MerkleNode) : (roots.rtake n).length ≤ n := by
  rw [List.rtake, List.length_drop]
  omega

theorem rtake_of_length_le {n : ℕ} {roots : List MerkleNode} (h : roots.length ≤ n) :
    roots.rtake n = roots := by
  rw [List.rtake, Nat.sub_eq_zero_of_le h, List.drop_zero]

theorem rtake_append {n : ℕ} (roots added : List MerkleNode) (h : added.length ≤ n) :
    (roots ++ added).rtake n = roots.rtake (n - added.length) ++ added := by
  have hfront : (roots ++ added).length - n = roots.length - (n - added.length) := by
    rw [List.length_append]
    omega
  have hback : roots.length - (n - added.length) - roots.length = 0 := by omega
  rw [List.rtake, hfront, List.drop_append, hback, List.drop_zero, List.rtake]

/-- `updateRecentRoots` in one line: the new roots after those taken for known are added, and the
window keeps its last roots. -/
theorem step_roots (hle : validRoots.length ≤ AcceptableRootWindowSize)
    {newestFirst : List UInt256}
    (h : (newestFirst.filter (· ≠ 0)).length ≤ AcceptableRootWindowSize) :
    step validRoots (.updateRecentRoots (.roots newestFirst h)) =
      (validRoots ++ (oldestFirst newestFirst).drop
        (stretch validRoots (oldestFirst newestFirst)).length).rtake AcceptableRootWindowSize := by
  have hbytes : ¬ (encode newestFirst).length % 32 ≠ 0 := by
    rw [length_encode]
    omega
  rw [step, Reply.fetched, updateRecentRoots]
  dsimp only
  rw [if_neg hbytes, newRootsDequeOrder_encode, matchLen_eq]
  split_ifs with hnone hknown
  · rw [List.length_eq_zero_iff.mp hnone, List.drop_nil, List.append_nil, rtake_of_length_le hle]
  · rw [List.length_eq_zero_iff.mp hknown, List.append_nil, rtake_of_length_le hle]
  · exact trim_eq _

/-! ### The window after a call -/

/-- The roots of the reply that `updateRecentRoots` got. -/
def Call.replied : Call → List UInt256
  | .updateRoots _ => []
  | .updateRecentRoots reply => reply.newestFirst

/-- `validRoots` after a call has every root of its reply, the newest last, and is not longer than
the window. -/
structure Call.UpToDate (call : Call) (validRoots : List MerkleNode) : Prop where
  bounded : validRoots.length ≤ AcceptableRootWindowSize
  contains : ∀ root ∈ call.replied, root ≠ 0 → UInt256ToField root ∈ validRoots
  newestLast : ∀ root, call.replied.find? (· ≠ 0) = some root →
    validRoots.getLast? = some (UInt256ToField root)

/-- The new roots that are skipped, as many as the stretch has, are still in the window or come
again later in the reply; where all are skipped, the newest is the last root already. -/
structure Continues (validRoots newRoots : List MerkleNode) : Prop where
  skipped : ∀ root ∈ newRoots.take (stretch validRoots newRoots).length,
    root ∈ validRoots.rtake
        (AcceptableRootWindowSize - (newRoots.drop (stretch validRoots newRoots).length).length) ∨
      root ∈ newRoots.drop (stretch validRoots newRoots).length
  allSkipped : newRoots.length = (stretch validRoots newRoots).length → newRoots ≠ [] →
    validRoots.getLast? = newRoots.getLast?

theorem continues_nil (validRoots : List MerkleNode) : Continues validRoots [] where
  skipped := fun root hroot => by
    rw [List.take_nil] at hroot
    cases hroot
  allSkipped := fun _ hne => absurd rfl hne

/-- The state in which a call leaves the window up to date. -/
def Call.Fits (validRoots : List MerkleNode) : Call → Prop
  | .updateRoots (.error _) => True
  | .updateRoots (.ok root) => validRoots.length < AcceptableRootWindowSize ∨
      validRoots.getLast? = some (UInt256ToField root)
  | .updateRecentRoots reply => Continues validRoots (oldestFirst reply.newestFirst)

/-- Where nothing was replied, only the length matters. -/
theorem upToDate_of_replied_nil {call : Call} (hnil : call.replied = []) :
    call.UpToDate validRoots ↔ validRoots.length ≤ AcceptableRootWindowSize := by
  constructor
  · exact fun h => h.bounded
  · intro hle
    refine ⟨hle, ?_, ?_⟩
    · intro root hroot
      rw [hnil] at hroot
      cases hroot
    · intro root hroot
      rw [hnil] at hroot
      cases hroot

theorem length_updateRoots_iff (hle : validRoots.length ≤ AcceptableRootWindowSize)
    (root : UInt256) :
    (updateRoots (.ok root) validRoots).1.length ≤ AcceptableRootWindowSize ↔
      validRoots.length < AcceptableRootWindowSize ∨
        validRoots.getLast? = some (UInt256ToField root) := by
  unfold updateRoots
  dsimp only
  cases hlast : validRoots.getLast? with
  | none =>
      have hnil : validRoots = [] := List.getLast?_eq_none_iff.mp hlast
      simp [hnil, AcceptableRootWindowSize]
  | some last =>
      by_cases heq : last = UInt256ToField root
      · simp [heq, hle]
      · rw [if_neg (Nat.not_lt.mpr hle)]
        simp [heq]

/-- All new roots are in the window, the newest last, exactly when the skipped ones are. -/
theorem continues_iff (hle : validRoots.length ≤ AcceptableRootWindowSize)
    (hnew : newRoots.length ≤ AcceptableRootWindowSize) :
    Continues validRoots newRoots ↔
      (∀ root ∈ newRoots, root ∈ (validRoots ++ newRoots.drop
        (stretch validRoots newRoots).length).rtake AcceptableRootWindowSize) ∧
      ∀ root, newRoots.getLast? = some root → ((validRoots ++ newRoots.drop
        (stretch validRoots newRoots).length).rtake AcceptableRootWindowSize).getLast? =
          some root := by
  have hadded : (newRoots.drop (stretch validRoots newRoots).length).length ≤
      AcceptableRootWindowSize := (List.drop_sublist _ _).length_le.trans hnew
  have hstretch := length_stretch_le validRoots newRoots
  rw [rtake_append validRoots _ hadded]
  constructor
  · intro h
    constructor
    · intro root hroot
      rw [List.mem_append]
      rw [← List.take_append_drop (stretch validRoots newRoots).length newRoots,
        List.mem_append] at hroot
      rcases hroot with htaken | hadded
      · exact h.skipped root htaken
      · exact Or.inr hadded
    · intro root hroot
      rw [List.getLast?_append, List.getLast?_drop]
      split_ifs with hall
      · have hne : newRoots ≠ [] := by
          rintro rfl
          cases hroot
        have hnil := List.drop_eq_nil_of_le hall
        rw [hnil, List.length_nil, Nat.sub_zero, rtake_of_length_le hle, Option.none_or,
          h.allSkipped (le_antisymm hall hstretch) hne]
        exact hroot
      · rw [hroot, Option.some_or]
  · rintro ⟨hmem, hlast⟩
    constructor
    · intro root hroot
      exact List.mem_append.mp (hmem root (List.mem_of_mem_take hroot))
    · intro hall hne
      obtain ⟨root, hroot⟩ := Option.ne_none_iff_exists'.mp
        (fun hnone => hne (List.getLast?_eq_none_iff.mp hnone))
      have hnil := List.drop_eq_nil_of_le hall.le
      have hkept := hlast root hroot
      rw [hnil, List.append_nil, List.length_nil, Nat.sub_zero, rtake_of_length_le hle] at hkept
      rw [hroot, hkept]

theorem upToDate_roots_iff (hle : validRoots.length ≤ AcceptableRootWindowSize)
    {newestFirst : List UInt256}
    (h : (newestFirst.filter (· ≠ 0)).length ≤ AcceptableRootWindowSize) :
    (Call.updateRecentRoots (.roots newestFirst h)).UpToDate
        (step validRoots (.updateRecentRoots (.roots newestFirst h))) ↔
      Continues validRoots (oldestFirst newestFirst) := by
  rw [step_roots hle h, continues_iff hle (by rw [length_oldestFirst]; exact h)]
  constructor
  · intro hdate
    constructor
    · intro root hroot
      obtain ⟨u, hu, hne, rfl⟩ := mem_oldestFirst.mp hroot
      exact hdate.contains u hu hne
    · intro root hroot
      rw [getLast?_oldestFirst, Option.map_eq_some_iff] at hroot
      obtain ⟨u, hu, rfl⟩ := hroot
      exact hdate.newestLast u hu
  · rintro ⟨hmem, hlast⟩
    refine ⟨length_rtake_le _ _, ?_, ?_⟩
    · intro u hu hne
      exact hmem _ (mem_oldestFirst.mpr ⟨u, hu, hne, rfl⟩)
    · intro u hu
      apply hlast
      have hu' : newestFirst.find? (· ≠ 0) = some u := hu
      rw [getLast?_oldestFirst, hu']
      rfl

/-- A call leaves a window that is not too long up to date exactly when it fits. -/
theorem upToDate_step_iff (hle : validRoots.length ≤ AcceptableRootWindowSize) (call : Call) :
    call.UpToDate (step validRoots call) ↔ call.Fits validRoots := by
  cases call with
  | updateRoots rootRes =>
      rw [upToDate_of_replied_nil rfl]
      cases rootRes with
      | error e => exact iff_of_true hle trivial
      | ok root => exact length_updateRoots_iff hle root
  | updateRecentRoots reply =>
      cases reply with
      | failed e =>
          rw [upToDate_of_replied_nil rfl]
          exact iff_of_true hle (continues_nil validRoots)
      | malformed bytes h =>
          rw [upToDate_of_replied_nil rfl, step, Reply.fetched, updateRecentRoots]
          dsimp only
          rw [if_pos h]
          exact iff_of_true hle (continues_nil validRoots)
      | roots newestFirst h => exact upToDate_roots_iff hle h

/-- In a run of the two calls from the empty deque, the window is up to date after every call
exactly when every call fits the window that it finds. -/
theorem upToDate_iff (calls : List Call) :
    AllSteps (fun pre call => call.UpToDate (after (pre ++ [call]))) calls ↔
      AllSteps (fun pre call => call.Fits (after pre)) calls := by
  refine @allSteps_congr _ _ _ (fun pre => (after pre).length ≤ AcceptableRootWindowSize)
    ?_ ?_ ?_ calls
  · exact Nat.zero_le _
  · exact fun pre call _ hdate => hdate.bounded
  · intro pre call hle
    rw [after, run_concat]
    exact upToDate_step_iff hle call

/-- After a reorganisation the reply shares its oldest root with the window, and its newest one is
taken for the root that it replaces. -/
theorem reorganised_root_missing : ¬ ∀ calls : List Call,
    AllSteps (fun pre call => call.UpToDate (after (pre ++ [call]))) calls := by
  intro h
  have hdate := (h ([.updateRecentRoots (.roots [2, 1] (by decide))] ++
    [.updateRecentRoots (.roots [3, 1, 0] (by decide))])).last
  have hlast := hdate.newestLast 3 (by decide)
  revert hlast
  decide

/-! ### Replies of one chain -/

/-- A reply that goes on from the stretch fits. -/
theorem continues_of_initial (hnew : newRoots.length ≤ AcceptableRootWindowSize)
    (h : stretch validRoots newRoots <+: newRoots) : Continues validRoots newRoots := by
  obtain ⟨added, hadded⟩ := h
  obtain ⟨front, hfront⟩ := stretch_suffix validRoots newRoots
  have htake : newRoots.take (stretch validRoots newRoots).length = stretch validRoots newRoots :=
    (List.prefix_iff_eq_take.mp ⟨added, hadded⟩).symm
  have hdrop : newRoots.drop (stretch validRoots newRoots).length = added := by
    have hsplit := List.take_append_drop (stretch validRoots newRoots).length newRoots
    rw [htake] at hsplit
    exact List.append_cancel_left (hsplit.trans hadded.symm)
  have hlen := congrArg List.length hadded
  rw [List.length_append] at hlen
  constructor
  · intro root hroot
    rw [htake] at hroot
    left
    rw [hdrop, ← hfront, rtake_append _ _ (by omega)]
    exact List.mem_append_right _ hroot
  · intro hall hne
    have hnil : added = [] := List.eq_nil_of_length_eq_zero (by omega)
    rw [hnil, List.append_nil] at hadded
    rw [← hfront, hadded, List.getLast?_append_of_ne_nil _ hne]

/-- Where the roots of a chain all differ, and those of `validRoots` that are looked at are
consecutive roots of the chain, a reply with its latest roots fits. -/
theorem continues_of_chain {seen rest : List MerkleNode} (hchain : (seen ++ rest).Nodup)
    (hseen : validRoots.rtake newRoots.length <:+ seen) (hreply : newRoots <:+ seen ++ rest)
    (hnew : newRoots.length ≤ AcceptableRootWindowSize) : Continues validRoots newRoots := by
  apply continues_of_initial hnew
  have hsuffix : stretch validRoots newRoots <:+ seen := (List.dropWhile_suffix _).trans hseen
  cases hstretch : stretch validRoots newRoots with
  | nil => exact List.nil_prefix
  | cons root known =>
      have hfirst : newRoots[0]? = some root := by
        have hhead := List.head?_dropWhile_not
          (fun root => decide (newRoots[0]? ≠ some root)) (validRoots.rtake newRoots.length)
        rw [← stretch, hstretch] at hhead
        simpa using hhead
      obtain ⟨later, rfl⟩ : ∃ later, newRoots = root :: later := by
        cases newRoots with
        | nil => cases hfirst
        | cons first later => exact ⟨later, by rw [Option.some.inj hfirst]⟩
      -- the root is at one place of the chain only, so the same roots follow it there
      obtain ⟨before, hbefore⟩ := hsuffix
      obtain ⟨front, hfront⟩ := hreply
      rw [hstretch] at hbefore
      rw [← hbefore, List.append_assoc, List.cons_append] at hfront hchain
      rw [List.nodup_middle, List.nodup_cons, List.mem_append, not_or] at hchain
      obtain ⟨-, -, hlater⟩ :=
        (List.append_cons_inj_of_notMem hchain.1.1 hchain.1.2).mp hfront.symm
      exact ⟨rest, by rw [List.cons_append, hlater]⟩

end LogosDelivery.Rln.AcceptableRoots
