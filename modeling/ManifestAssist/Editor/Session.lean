import ManifestAssist.Editor.Settings
import ManifestAssist.Editor.View
import ManifestAssist.Manifest.Cache

/-! # Sessions

One open document with the context of its editor. While the text is no manifest, answers are drawn
from the last one that could be read.
-/

namespace ManifestAssist

structure Session where
  context : Context
  cache : Cache := .empty
  version : Int := 0
  source : Text := []

/-- A manifest for a text that may be none. -/
def Manifest.ofText (text : Text) : Manifest :=
  (Manifest.parse text).toOption.getD .empty

namespace Session

/-- A session with an empty document, given a reader of manifests, unless its context cannot be
read. -/
def startWith (read : Text → Except ManifestError Manifest) (document : Option String) :
    Except ContextError Session := do
  return { context := ← Context.parse document, cache := { read } }

def start (document : Option String) : Except ContextError Session :=
  startWith Manifest.parse document

variable (session : Session)

/-- Takes over another context. One that cannot be read changes nothing. -/
def setContext (document : Option String) : Option ContextError × Session :=
  match Context.parse document with
  | .ok context => (none, { session with context })
  | .error e => (some e, session)

/-- Takes over a text. Is its manifest missing or that of an earlier text? -/
def update (version : Int) (source : Text) : Bool × Session :=
  let (served, cache) := session.cache.get version source
  (served.all (·.isStale), { session with cache, version, source })

/-- The manifest that answers are drawn from. -/
def manifest : Manifest × Session :=
  let (served, cache) := session.cache.get session.version session.source
  ((served.map (·.manifest)).getD .empty, { session with cache })

def complete (position : Position) : CompletionView × Session :=
  let (manifest, session) := session.manifest
  (View.complete session.source position manifest session.context, session)

def lenses : List Lens × Session :=
  let (manifest, session) := session.manifest
  (View.lenses session.source manifest, session)

end Session

/-- What an editor asks of a session. -/
inductive Command where
  | update (version : Int) (source : Text)
  | setContext (document : Option String)
  | complete (position : Position)
  | lenses
  deriving DecidableEq, Repr

/-- What a session answers. -/
inductive Reply where
  | updated (version : Int) (isStale : Bool)
  | contextSet
  | contextRefused (error : ContextError)
  | completion (view : CompletionView)
  | lenses (lenses : List Lens)
  deriving DecidableEq, Repr

namespace Session

def perform (session : Session) : Command → Reply × Session
  | .update version source =>
    let (isStale, session) := session.update version source
    (.updated version isStale, session)
  | .setContext document =>
    match session.setContext document with
    | (none, session) => (.contextSet, session)
    | (some e, session) => (.contextRefused e, session)
  | .complete position =>
    let (view, session) := session.complete position
    (.completion view, session)
  | .lenses =>
    let (lenses, session) := session.lenses
    (.lenses lenses, session)

/-- The replies to commands that are given one after another. -/
def run (session : Session) : List Command → List Reply
  | [] => []
  | command :: commands =>
    let (reply, session) := session.perform command
    reply :: session.run commands

end Session

end ManifestAssist
