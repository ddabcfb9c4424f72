import ManifestAssist.Manifest.Tree

/-! # Document cache

A text is read again only if it or its version changes. While the text is no manifest, the last one
that could be read is served instead.
-/

namespace ManifestAssist

/-- A manifest out of the cache. It is stale if it is that of an earlier text. -/
structure Served where
  manifest : Manifest
  isStale : Bool

/-- The text that was read last, with its manifest if it is one. -/
structure CacheEntry where
  version : Int
  text : Text
  parsed : Option Manifest

structure Cache where
  /-- The reader of texts, which may be no manifests. -/
  read : Text → Except ManifestError Manifest := Manifest.parse
  entry : Option CacheEntry := none
  lastGood : Option Manifest := none

namespace Cache

def empty : Cache := {}

def version? (cache : Cache) : Option Int :=
  cache.entry.map (·.version)

def holds (cache : Cache) (version : Int) (text : Text) : Bool :=
  cache.entry.any fun entry => entry.version == version && entry.text == text

/-- Reads a text into the cache. -/
def refresh (cache : Cache) (version : Int) (text : Text) : Cache :=
  let parsed := (cache.read text).toOption
  { cache with
    entry := some ⟨version, text, parsed⟩
    lastGood := parsed <|> cache.lastGood }

/-- The manifest that the cache holds. -/
def served? (cache : Cache) : Option Served :=
  match cache.entry.bind (·.parsed) with
  | some manifest => some ⟨manifest, false⟩
  | none => cache.lastGood.map fun manifest => ⟨manifest, true⟩

/-- Forgets all texts. -/
def invalidate (cache : Cache) : Cache :=
  { read := cache.read }

/-- The manifest of a text, which is read unless the cache holds it. -/
def get (cache : Cache) (version : Int) (text : Text) : Option Served × Cache :=
  let cache := if cache.holds version text then cache else cache.refresh version text
  (cache.served?, cache)

end Cache

end ManifestAssist
