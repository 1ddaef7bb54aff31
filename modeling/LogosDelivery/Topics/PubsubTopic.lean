import LogosDelivery.Discovery.EnrSharding
import LogosDelivery.Lib.Text

/-! # Parsing static sharding topics

`RelayShard.parse` of `waku_core/topics/pubsub_topic.nim`, over all strings.  A string is the list
of its characters, which are bytes in Nim.

The prefix that is tested has ten characters and the part that is parsed starts after the eleventh.
So the eleventh character may be any, and a topic that ends before it raises a defect, the outcome
`none`; every other topic is parsed as it should be (`parse_exact_iff`).  The decimal decoder of the
library is a parameter, with what it accepts. -/

namespace LogosDelivery.Topics

open Lib
open Discovery (RelayShard ParsingError StaticShardingPubsubTopicPrefix)

abbrev Text := List Char

/-- `s[first ..< s.len]`; a slice of negative length is a `RangeDefect`. -/
def slice (s : Text) (first : ℕ) : Option Text :=
  if first ≤ s.length then some (s.drop first) else none

/-- `Base10.decode` of a `uint16`. -/
structure Base10 where
  decode : Text → Except String UInt16
  decode_eq_ok : ∀ s v, decode s = .ok v ↔ IsDecimal s v.toNat

/-- `$topic`. -/
def toText (topic : RelayShard) : Text :=
  "/waku/2/rs/".toList ++ Nat.toDigits 10 topic.clusterId.toNat ++
    '/' :: Nat.toDigits 10 topic.shardId.toNat

section Parse

variable (base10 : Base10)

/-- A part of the topic, which must not be empty, as a number. -/
def parsePart (name : String) (part : Text) : Except ParsingError UInt16 :=
  if part.length = 0 then .error (.missingPart name)
  else (base10.decode part).mapError .invalidFormat

/-- The parts of a topic behind its prefix. -/
def parseParts : List Text → Except ParsingError RelayShard
  | [clusterPart, shardPart] =>
      match parsePart base10 "cluster_id" clusterPart with
      | .error e => .error e
      | .ok clusterId =>
          match parsePart base10 "shard_number" shardPart with
          | .error e => .error e
          | .ok shardId => .ok ⟨clusterId, shardId⟩
  | _ => .error (.invalidFormat "invalid topic structure")

def parseStaticSharding (topic : Text) : Option (Except ParsingError RelayShard) :=
  if ¬ StaticShardingPubsubTopicPrefix.toList <+: topic then
    some (.error (.invalidFormat ("must start with " ++ StaticShardingPubsubTopicPrefix)))
  else (slice topic 11).map (fun rest => parseParts base10 (rest.splitOn '/'))

def parse (topic : Text) : Option (Except ParsingError RelayShard) :=
  parseStaticSharding base10 topic

end Parse

/-! ### What is accepted -/

/-- Two decimal numbers with a slash between them. -/
def IsShardText (s : Text) (shard : RelayShard) : Prop :=
  ∃ clusterPart shardPart, s = clusterPart ++ '/' :: shardPart ∧
    IsDecimal clusterPart shard.clusterId.toNat ∧ IsDecimal shardPart shard.shardId.toNat

/-- The topic is parsed as a static sharding topic, or refused if it is none. -/
def ParsedExactly (base10 : Base10) (topic : Text) : Prop :=
  parse base10 topic ≠ none ∧
    ∀ shard, parse base10 topic = some (.ok shard) ↔
      ∃ s, topic = "/waku/2/rs/".toList ++ s ∧ IsShardText s shard

variable {base10 : Base10} {topic s : Text} {shard : RelayShard}

theorem parsePart_eq_ok {name : String} {part : Text} {v : UInt16} :
    parsePart base10 name part = .ok v ↔ IsDecimal part v.toNat := by
  unfold parsePart
  split_ifs with hlen
  · have hnil : part = [] := List.length_eq_zero_iff.mp hlen
    simp [IsDecimal, hnil]
  · rw [← base10.decode_eq_ok]
    cases base10.decode part with
    | error e => simp [Except.mapError]
    | ok v' => simp [Except.mapError]

theorem parseParts_splitOn_eq_ok :
    parseParts base10 (s.splitOn '/') = .ok shard ↔ IsShardText s shard := by
  constructor
  · intro h
    match hparts : s.splitOn '/' with
    | [clusterPart, shardPart] =>
        rw [hparts, parseParts] at h
        cases hcluster : parsePart base10 "cluster_id" clusterPart with
        | error e =>
            rw [hcluster] at h
            cases h
        | ok clusterId =>
            cases hshard : parsePart base10 "shard_number" shardPart with
            | error e =>
                rw [hcluster, hshard] at h
                cases h
            | ok shardId =>
                rw [hcluster, hshard] at h
                cases h
                obtain ⟨hs, -⟩ := (splitOn_eq_iff (List.cons_ne_nil _ _)).mp hparts
                exact ⟨clusterPart, shardPart, by simpa [List.intercalate] using hs,
                  parsePart_eq_ok.mp hcluster, parsePart_eq_ok.mp hshard⟩
    | [] =>
        rw [hparts] at h
        cases h
    | [_] =>
        rw [hparts] at h
        cases h
    | _ :: _ :: _ :: _ =>
        rw [hparts] at h
        cases h
  · rintro ⟨clusterPart, shardPart, rfl, hcluster, hshard⟩
    have hsplit : (clusterPart ++ '/' :: shardPart).splitOn '/' = [clusterPart, shardPart] := by
      rw [splitOn_eq_iff (List.cons_ne_nil _ _)]
      refine ⟨by simp [List.intercalate], ?_⟩
      intro part hpart
      rcases List.mem_pair.mp hpart with rfl | rfl
      · exact hcluster.notMem (by decide)
      · exact hshard.notMem (by decide)
    rw [hsplit, parseParts, parsePart_eq_ok.mpr hcluster]
    dsimp only
    rw [parsePart_eq_ok.mpr hshard]

/-- A topic that starts with the prefix, by what comes after it. -/
theorem parse_prefix (rest : Text) :
    parse base10 ("/waku/2/rs".toList ++ rest) =
      match rest with
      | [] => none
      | _ :: s => some (parseParts base10 (s.splitOn '/')) := by
  have hprefix : ¬ ¬ StaticShardingPubsubTopicPrefix.toList <+: "/waku/2/rs".toList ++ rest :=
    not_not.mpr (List.prefix_append _ _)
  have hlen : "/waku/2/rs".toList.length = 10 := by decide
  rw [parse, parseStaticSharding, if_neg hprefix]
  cases rest with
  | nil =>
      rw [slice, if_neg (by rw [List.append_nil, hlen]; omega)]
      rfl
  | cons c s =>
      have hslice : slice ("/waku/2/rs".toList ++ c :: s) 11 = some s := by
        rw [slice, if_pos (by rw [List.length_append, hlen, List.length_cons]; omega)]
        rfl
      rw [hslice, Option.map_some]

theorem prefix_slash : "/waku/2/rs/".toList = "/waku/2/rs".toList ++ ['/'] := by decide

theorem parse_of_not_prefix (base10 : Base10) (h : ¬ "/waku/2/rs".toList <+: topic) :
    ∃ e, parse base10 topic = some (.error e) :=
  ⟨.invalidFormat ("must start with " ++ StaticShardingPubsubTopicPrefix), if_pos h⟩

/-- **Which topics are parsed as they should be.**  All but the prefix without anything after it,
and the topics that have another character in the place of the slash after the prefix, and two
numbers with a slash between them from there on. -/
theorem parse_exact_iff (base10 : Base10) (topic : Text) :
    ParsedExactly base10 topic ↔
      topic ≠ "/waku/2/rs".toList ∧
      ¬ ∃ c s shard, topic = "/waku/2/rs".toList ++ c :: s ∧ c ≠ '/' ∧ IsShardText s shard := by
  by_cases hprefix : "/waku/2/rs".toList <+: topic
  · obtain ⟨rest, rfl⟩ := hprefix
    rw [ParsedExactly, parse_prefix]
    cases rest with
    | nil => simp
    | cons c s =>
        have hwhole : ∀ shard, (∃ s', "/waku/2/rs".toList ++ c :: s = "/waku/2/rs/".toList ++ s' ∧
            IsShardText s' shard) ↔ c = '/' ∧ IsShardText s shard := by
          intro shard
          rw [prefix_slash]
          constructor
          · rintro ⟨s', heq, hs'⟩
            rw [List.append_assoc, List.append_cancel_left_eq, List.singleton_append] at heq
            obtain ⟨rfl, rfl⟩ := List.cons.inj heq
            exact ⟨rfl, hs'⟩
          · rintro ⟨rfl, hs⟩
            exact ⟨s, by simp, hs⟩
        simp only [hwhole, Option.some.injEq, parseParts_splitOn_eq_ok]
        constructor
        · rintro ⟨-, hexact⟩
          refine ⟨by simp, ?_⟩
          rintro ⟨c', s', shard, heq, hc', hs'⟩
          obtain ⟨rfl, rfl⟩ := List.cons.inj (List.append_cancel_left heq)
          exact hc' ((hexact shard).mp hs').1
        · rintro ⟨-, hnone⟩
          refine ⟨by simp, fun shard => ⟨fun hs => ⟨?_, hs⟩, And.right⟩⟩
          by_contra hc
          exact hnone ⟨c, s, shard, rfl, hc, hs⟩
  · obtain ⟨e, he⟩ := parse_of_not_prefix base10 hprefix
    have hnot : ∀ s, topic ≠ "/waku/2/rs".toList ++ s := fun s heq =>
      hprefix (heq ▸ List.prefix_append _ _)
    refine iff_of_true ⟨by rw [he]; simp, fun shard => ?_⟩ ⟨fun heq => hnot [] (by simpa using heq), ?_⟩
    · rw [he]
      refine iff_of_false (by simp) ?_
      rintro ⟨s, heq, -⟩
      exact hnot ('/' :: s) (by rw [heq, prefix_slash, List.append_assoc]; rfl)
    · rintro ⟨c, s, shard, heq, -⟩
      exact hnot (c :: s) heq

/-- What is written for a shard is read as the shard. -/
theorem parse_toText (base10 : Base10) (shard : RelayShard) :
    parse base10 (toText shard) = some (.ok shard) := by
  have hslash : ∀ cluster rest : Text, "/waku/2/rs/".toList ++ cluster ++ '/' :: rest =
      "/waku/2/rs".toList ++ '/' :: (cluster ++ '/' :: rest) := by
    intro cluster rest
    rw [prefix_slash]
    simp only [List.append_assoc, List.nil_append, List.cons_append]
  have hshard : IsShardText
      (Nat.toDigits 10 shard.clusterId.toNat ++ '/' :: Nat.toDigits 10 shard.shardId.toNat) shard :=
    ⟨Nat.toDigits 10 shard.clusterId.toNat, Nat.toDigits 10 shard.shardId.toNat, rfl,
      isDecimal_toDigits _, isDecimal_toDigits _⟩
  unfold toText
  rw [hslash, parse_prefix]
  dsimp only
  rw [parseParts_splitOn_eq_ok.mpr hshard]

/-! ### A decoder -/

/-- The library's decoder, without its check for an overflow in the middle of a text: a number that
is too large stays so. -/
def decodeUInt16 (src : Text) : Except String UInt16 :=
  if src = [] then .error "Missing decimal value"
  else if src.all Char.isDigit = false then .error "Non-decimal character encountered"
  else if Nat.ofDigitChars 10 src 0 < 2 ^ 16 then .ok (UInt16.ofNat (Nat.ofDigitChars 10 src 0))
  else .error "Integer overflow"

theorem decodeUInt16_eq_ok (s : Text) (v : UInt16) :
    decodeUInt16 s = .ok v ↔ IsDecimal s v.toNat := by
  unfold decodeUInt16 IsDecimal
  split_ifs with hnil hdigits hlt
  · simp [hnil]
  · simp only [List.all_eq_false] at hdigits
    obtain ⟨c, hc, hnot⟩ := hdigits
    refine iff_of_false (by simp) (fun h => hnot (h.2.1 c hc))
  · have hall : ∀ c ∈ s, c.isDigit = true := List.all_eq_true.mp (Bool.eq_true_of_not_eq_false hdigits)
    constructor
    · intro h
      rw [← Except.ok.inj h, UInt16.toNat_ofNat_of_lt' hlt]
      exact ⟨hnil, hall, rfl⟩
    · rintro ⟨-, -, hvalue⟩
      rw [hvalue, UInt16.ofNat_toNat]
  · refine iff_of_false (by simp) (fun h => hlt ?_)
    rw [h.2.2]
    exact v.toNat_lt

def uint16Decoder : Base10 := ⟨decodeUInt16, decodeUInt16_eq_ok⟩

/-- The bare prefix raises a defect, and a topic without the slash after it is accepted. -/
theorem parse_bare_and_slashless :
    ¬ ParsedExactly uint16Decoder "/waku/2/rs".toList ∧
    ¬ ParsedExactly uint16Decoder "/waku/2/rsX1/2".toList ∧
    parse uint16Decoder "/waku/2/rs".toList = none ∧
    parse uint16Decoder "/waku/2/rsX1/2".toList = some (.ok ⟨1, 2⟩) := by
  have hbare : parse uint16Decoder "/waku/2/rs".toList = none := by decide
  have hslashless : parse uint16Decoder "/waku/2/rsX1/2".toList = some (.ok ⟨1, 2⟩) := by rfl
  refine ⟨fun h => h.1 hbare, fun h => ?_, hbare, hslashless⟩
  obtain ⟨s, heq, -⟩ := (h.2 ⟨1, 2⟩).mp hslashless
  have hchar := congrArg (fun l : Text => l[10]?) heq
  simp at hchar

end LogosDelivery.Topics
