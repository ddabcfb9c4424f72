import Mathlib
import ManifestAssist.Manifest.Cache

/-! # Histories of a cache

What a cache serves is told by the texts that it has been asked for since it was last emptied. A
cache that holds a text serves it as if it were read again, so neither versions nor repetitions show.
How texts are read does not matter: all this holds for any reader.
-/

namespace ManifestAssist

/-- A call on a cache. -/
inductive CacheCall where
  | get (version : Int) (text : Text)
  | invalidate
  deriving DecidableEq, Repr

namespace CacheCall

/-- The text that is asked for. -/
def text? : CacheCall → Option Text
  | get _ text => some text
  | invalidate => none

/-- The versions and texts that are asked for ahead of the first invalidation. -/
def untilInvalidate : List CacheCall → List (Int × Text)
  | [] => []
  | get version text :: calls => (version, text) :: untilInvalidate calls
  | invalidate :: _ => []

/-- The versions and texts that are asked for since the last invalidation, the latest first. -/
def recent (calls : List CacheCall) : List (Int × Text) :=
  untilInvalidate calls.reverse

variable (read : Text → Except ManifestError Manifest)

/-- The manifest of the latest text since the last invalidation that is one. -/
def lastParsed? (calls : List CacheCall) : Option Manifest :=
  (recent calls).findSome? fun request => (read request.2).toOption

variable {read} {calls others : List CacheCall} {version : Int} {text : Text}

@[simp] theorem recent_append_get :
    recent (calls ++ [get version text]) = (version, text) :: recent calls := by
  simp [recent, untilInvalidate]

@[simp] theorem recent_append_invalidate : recent (calls ++ [invalidate]) = [] := by
  simp [recent, untilInvalidate]

@[simp] theorem lastParsed?_append_get :
    lastParsed? read (calls ++ [get version text]) =
      ((read text).toOption <|> lastParsed? read calls) := by
  rw [lastParsed?, recent_append_get, List.findSome?_cons, lastParsed?]
  cases (read text).toOption <;> simp

@[simp] theorem lastParsed?_append_invalidate :
    lastParsed? read (calls ++ [invalidate]) = none := by
  rw [lastParsed?, recent_append_invalidate, List.findSome?_nil]

theorem lastParsed?_append_congr (h : lastParsed? read others = lastParsed? read calls)
    (more : List CacheCall) :
    lastParsed? read (others ++ more) = lastParsed? read (calls ++ more) := by
  -- From the right: a call sees the calls ahead only through what was parsed last.
  induction more using List.reverseRecOn with
  | nil => simpa using h
  | append_singleton more call ih =>
    rw [← List.append_assoc, ← List.append_assoc]
    cases call with
    | get version text => rw [lastParsed?_append_get, lastParsed?_append_get, ih]
    | invalidate => rw [lastParsed?_append_invalidate, lastParsed?_append_invalidate]

theorem lastParsed?_append_twice (calls : List CacheCall) (call : CacheCall) :
    lastParsed? read (calls ++ [call] ++ [call]) = lastParsed? read (calls ++ [call]) := by
  cases call with
  | get version text =>
    rw [lastParsed?_append_get, lastParsed?_append_get]
    cases (read text).toOption <;> simp
  | invalidate => rw [lastParsed?_append_invalidate, lastParsed?_append_invalidate]

theorem lastParsed?_append_replicate (calls : List CacheCall) (n : Nat) (call : CacheCall) :
    lastParsed? read (calls ++ List.replicate (n + 1) call) =
      lastParsed? read (calls ++ [call]) := by
  induction n with
  | zero => rfl
  | succ n ih =>
    rw [List.replicate_succ', ← List.append_assoc, lastParsed?_append_congr ih,
      lastParsed?_append_twice]

theorem lastParsed?_of_map_text? (h : others.map text? = calls.map text?) :
    lastParsed? read others = lastParsed? read calls := by
  induction calls using List.reverseRecOn generalizing others with
  | nil =>
    obtain rfl : others = [] := by simpa using h
    rfl
  | append_singleton calls call ih =>
    rw [List.map_append] at h
    obtain ⟨others, rest, rfl, hcalls, hrest⟩ := List.map_eq_append_iff.mp h
    obtain ⟨other, rfl, hother⟩ := List.map_eq_singleton_iff.mp hrest
    cases other <;> cases call <;> simp_all [text?]

end CacheCall

namespace Cache

/-- The cache after a call. -/
def perform (cache : Cache) : CacheCall → Cache
  | .get version text => (cache.get version text).2
  | .invalidate => cache.invalidate

variable (read : Text → Except ManifestError Manifest)

/-- A new cache with a reader, after some calls. -/
def after (calls : List CacheCall) : Cache :=
  calls.foldl perform { read }

/-- Does the cache hold what reading its text gives? -/
structure Coherent (cache : Cache) : Prop where
  parsed : ∀ entry ∈ cache.entry, entry.parsed = (cache.read entry.text).toOption
  lastGood : ∀ entry ∈ cache.entry, entry.parsed.isSome → cache.lastGood = entry.parsed

variable {read} {cache : Cache} {calls : List CacheCall} {version : Int} {text : Text}

theorem coherent_new : Coherent { read } :=
  ⟨nofun, nofun⟩

theorem coherent_refresh (cache : Cache) (version : Int) (text : Text) :
    Coherent (cache.refresh version text) := by
  constructor
  · rintro entry ⟨⟩
    rfl
  · rintro entry ⟨⟩ h
    obtain ⟨manifest, hparsed⟩ := Option.isSome_iff_exists.mp h
    change (cache.read text).toOption = some manifest at hparsed
    simp [refresh, hparsed]

theorem refresh_eq_self (h : cache.Coherent) (hit : cache.holds version text) :
    cache.refresh version text = cache := by
  obtain ⟨entry, hentry, heq⟩ := (Option.any_eq_true _ _).mp hit
  simp only [Bool.and_eq_true, beq_iff_eq] at heq
  obtain ⟨rfl, rfl⟩ := heq
  have hparsed := h.parsed entry hentry
  have hgood := h.lastGood entry hentry
  have hlast : ((cache.read entry.text).toOption <|> cache.lastGood) = cache.lastGood := by
    rw [← hparsed]
    cases hp : entry.parsed with
    | none => simp
    | some manifest => simp [hgood (by simp [hp]), hp]
  cases cache with
  | mk read held lastGood =>
    obtain rfl : held = some entry := hentry
    rw [refresh, hlast, ← hparsed]

/-- Whether the cache holds a text does not show. -/
theorem get_of_coherent (h : cache.Coherent) (version : Int) (text : Text) :
    cache.get version text =
      ((cache.refresh version text).served?, cache.refresh version text) := by
  unfold get
  split
  · rw [refresh_eq_self h ‹_›]
  · rfl

theorem served?_refresh (cache : Cache) (version : Int) (text : Text) :
    (cache.refresh version text).served? =
      match cache.read text with
      | .ok manifest => some ⟨manifest, false⟩
      | .error _ => cache.lastGood.map fun manifest => ⟨manifest, true⟩ := by
  unfold served? refresh
  cases h : cache.read text with
  | ok manifest => simp [Except.toOption]
  | error e => simp [Except.toOption]

/-- Does a cache hold what the calls on it tell? -/
structure Follows (read : Text → Except ManifestError Manifest) (calls : List CacheCall)
    (cache : Cache) : Prop where
  reader : cache.read = read
  coherent : cache.Coherent
  version : cache.version? = (CacheCall.recent calls).head?.map Prod.fst
  lastGood : cache.lastGood = CacheCall.lastParsed? read calls

theorem Follows.perform (h : Follows read calls cache) (call : CacheCall) :
    Follows read (calls ++ [call]) (cache.perform call) := by
  cases call with
  | get version text =>
    rw [Cache.perform, get_of_coherent h.coherent]
    refine ⟨h.reader, coherent_refresh cache version text, ?_, ?_⟩
    · simp [version?, refresh]
    · rw [CacheCall.lastParsed?_append_get, ← h.lastGood, ← h.reader]
      rfl
  | invalidate =>
    refine ⟨h.reader, coherent_new, ?_, ?_⟩
    · simp [Cache.perform, invalidate, version?]
    · simp [Cache.perform, invalidate]

theorem follows_after (calls : List CacheCall) : Follows read calls (after read calls) := by
  induction calls using List.reverseRecOn with
  | nil => exact ⟨rfl, coherent_new, rfl, rfl⟩
  | append_singleton calls call ih =>
    rw [after, List.foldl_append]
    exact ih.perform call

theorem served_after (calls : List CacheCall) (version : Int) (text : Text) :
    ((after read calls).get version text).1 =
      match read text with
      | .ok manifest => some ⟨manifest, false⟩
      | .error _ => (CacheCall.lastParsed? read calls).map fun manifest => ⟨manifest, true⟩ := by
  have h : Follows read calls (after read calls) := follows_after calls
  rw [get_of_coherent h.coherent, served?_refresh, h.reader, h.lastGood]

theorem served_after_congr {others : List CacheCall}
    (h : CacheCall.lastParsed? read others = CacheCall.lastParsed? read calls) (version' : Int) :
    ((after read others).get version' text).1 = ((after read calls).get version text).1 := by
  rw [served_after, served_after, h]

theorem served_after_append_replicate (n : Nat) (version' : Int) :
    ((after read (calls ++ List.replicate n (.get version' text))).get version text).1 =
      ((after read calls).get version text).1 := by
  rw [served_after, served_after]
  cases hread : read text with
  | ok manifest => rfl
  | error e =>
    cases n with
    | zero => simp
    | succ n =>
      rw [CacheCall.lastParsed?_append_replicate, CacheCall.lastParsed?_append_get, hread]
      simp [Except.toOption]

/-- A text that is a manifest is served as it is, and for any other the latest one since the last
invalidation that is a manifest. Versions, repeated calls and what was ahead of an invalidation do
not show. -/
theorem get_after (read : Text → Except ManifestError Manifest) (calls : List CacheCall)
    (version : Int) (text : Text) :
    ((after read calls).get version text).1 =
        (match read text with
        | .ok manifest => some ⟨manifest, false⟩
        | .error _ =>
          ((CacheCall.recent calls).findSome? fun request =>
            (read request.2).toOption).map fun manifest => ⟨manifest, true⟩) ∧
      (after read calls).version? = (CacheCall.recent calls).head?.map Prod.fst ∧
      (∀ others version', others.map CacheCall.text? = calls.map CacheCall.text? →
        ((after read others).get version' text).1 = ((after read calls).get version text).1) ∧
      (∀ call n more,
        ((after read (calls ++ List.replicate (n + 1) call ++ more)).get version text).1 =
          ((after read (calls ++ [call] ++ more)).get version text).1) ∧
      (∀ n version',
        ((after read (calls ++ List.replicate n (.get version' text))).get version text).1 =
          ((after read calls).get version text).1) ∧
      ∀ earlier, ((after read (earlier ++ [.invalidate] ++ calls)).get version text).1 =
        ((after read calls).get version text).1 := by
  refine ⟨served_after calls version text, (follows_after calls).version, ?_, ?_, ?_, ?_⟩
  · intro others version' h
    exact served_after_congr (CacheCall.lastParsed?_of_map_text? h) version'
  · intro call n more
    apply served_after_congr
    exact CacheCall.lastParsed?_append_congr
      (CacheCall.lastParsed?_append_replicate calls n call) more
  · intro n version'
    exact served_after_append_replicate n version'
  · intro earlier
    apply served_after_congr
    have hforgotten : CacheCall.lastParsed? read (earlier ++ [.invalidate]) =
        CacheCall.lastParsed? read [] :=
      CacheCall.lastParsed?_append_invalidate
    exact CacheCall.lastParsed?_append_congr hforgotten calls

theorem get_after_unfinished :
    ([CacheCall.get 7 "a: 1".toList, .get 7 "a: [".toList].map CacheCall.text? =
        [CacheCall.get 1 "a: 1".toList, .get 2 "a: [".toList].map CacheCall.text?) ∧
      ((after Manifest.parse [.get 1 "a: 1".toList, .get 2 "a: [".toList]).get 3
        "a: [".toList).1.map (·.isStale) = some true ∧
      ((after Manifest.parse [.get 7 "a: 1".toList, .get 7 "a: [".toList]).get 7
          "a: [".toList).1 =
        ((after Manifest.parse [.get 1 "a: 1".toList, .get 2 "a: [".toList]).get 3
          "a: [".toList).1 := by
  have htexts : [CacheCall.get 7 "a: 1".toList, .get 7 "a: [".toList].map CacheCall.text? =
      [CacheCall.get 1 "a: 1".toList, .get 2 "a: [".toList].map CacheCall.text? := rfl
  obtain ⟨-, -, hversions, -⟩ :=
    get_after Manifest.parse [.get 1 "a: 1".toList, .get 2 "a: [".toList] 3 "a: [".toList
  exact ⟨htexts, by decide +kernel, hversions _ 7 htexts⟩

end Cache

end ManifestAssist
