import ManifestAssist.Editor.Session
import ManifestAssist.Proofs.Manifest.History

/-! # Histories of a session

What a session replies is told by the commands ahead: the text is that of the last update, the
manifest is that of the latest update that is one, and the context is the last one that could be
read. A command that only asks, or that is refused, leaves no trace. Of how manifests are read no
more matters than that the empty text is none.
-/

namespace ManifestAssist

namespace Command

variable (read : Text → Except ManifestError Manifest)

/-- The text of an update. -/
def source? : Command → Option Text
  | update _ source => some source
  | _ => none

/-- The context that a command puts in force. -/
def context? : Command → Option Context
  | setContext document => (Context.parse document).toOption
  | _ => none

/-- The text of the last update, or the empty one. -/
def lastSource (commands : List Command) : Text :=
  (commands.filterMap source?).getLast?.getD []

/-- The manifest of the latest update that is one. -/
def lastParsed? (commands : List Command) : Option Manifest :=
  (commands.filterMap source?).reverse.findSome? fun source => (read source).toOption

/-- The context that was put in force last. -/
def lastContext (initial : Context) (commands : List Command) : Context :=
  (commands.filterMap context?).getLast?.getD initial

/-- The reply to a command by what the commands ahead of it tell. -/
def reply (initial : Context) (earlier : List Command) : Command → Reply
  | update version source => .updated version (read source).toOption.isNone
  | setContext document =>
    match Context.parse document with
    | .ok _ => .contextSet
    | .error e => .contextRefused e
  | complete position =>
    .completion (View.complete (lastSource earlier) position ((lastParsed? read earlier).getD .empty)
      (lastContext initial earlier))
  | lenses => .lenses (View.lenses (lastSource earlier) ((lastParsed? read earlier).getD .empty))

/-- Does a command only ask, or is it refused? -/
def IsSilent : Command → Prop
  | update _ _ => False
  | setContext document => ∃ e, Context.parse document = .error e
  | complete _ => True
  | lenses => True

variable {read} {initial : Context} {command : Command}

theorem IsSilent.source? (h : command.IsSilent) : command.source? = none := by
  cases command with
  | update version source => exact h.elim
  | setContext document => rfl
  | complete position => rfl
  | lenses => rfl

theorem IsSilent.context? (h : command.IsSilent) : command.context? = none := by
  cases command with
  | update version source => exact h.elim
  | setContext document =>
    obtain ⟨e, he⟩ := h
    rw [Command.context?, he]
    rfl
  | complete position => rfl
  | lenses => rfl

section

variable (before after : List Command)

theorem lastSource_of_source? (h : command.source? = none) :
    lastSource (before ++ command :: after) = lastSource (before ++ after) := by
  simp [lastSource, List.filterMap_append, h]

theorem lastParsed?_of_source? (h : command.source? = none) :
    lastParsed? read (before ++ command :: after) = lastParsed? read (before ++ after) := by
  simp [lastParsed?, List.filterMap_append, h]

theorem lastContext_of_context? (h : command.context? = none) :
    lastContext initial (before ++ command :: after) = lastContext initial (before ++ after) := by
  simp [lastContext, List.filterMap_append, h]

theorem reply_of_isSilent (h : command.IsSilent) :
    reply read initial (before ++ command :: after) = reply read initial (before ++ after) := by
  funext later
  cases later <;> simp only [reply, lastSource_of_source? before after h.source?,
    lastParsed?_of_source? before after h.source?, lastContext_of_context? before after h.context?]

end

section

variable (initial : Context) (earlier : List Command) (version : Int) (source : Text)

@[simp] theorem lastSource_append_update :
    lastSource (earlier ++ [update version source]) = source := by
  simp [lastSource, source?]

@[simp] theorem lastParsed?_append_update :
    lastParsed? read (earlier ++ [update version source]) =
      ((read source).toOption <|> lastParsed? read earlier) := by
  simp only [lastParsed?, List.filterMap_append, List.filterMap_cons, List.filterMap_nil, source?,
    List.reverse_concat, List.findSome?_cons]
  cases (read source).toOption <;> simp

@[simp] theorem lastContext_append_update :
    lastContext initial (earlier ++ [update version source]) = lastContext initial earlier := by
  simp [lastContext, context?]

end

theorem lastParsed?_eq_or (hnil : (read []).toOption = none) (commands : List Command) :
    ((read (lastSource commands)).toOption <|> lastParsed? read commands) =
      lastParsed? read commands := by
  rw [lastSource, lastParsed?]
  rcases List.eq_nil_or_concat (commands.filterMap source?) with h | ⟨sources, source, h⟩
  · rw [h, List.getLast?_nil, Option.getD_none, hnil]
    rfl
  · rw [h, List.concat_eq_append, List.getLast?_concat, Option.getD_some, List.reverse_concat,
      List.findSome?_cons]
    cases (read source).toOption <;> simp

end Command

namespace Session

open Command

/-- Does a session hold what the commands ahead tell? -/
structure Follows (read : Text → Except ManifestError Manifest) (initial : Context)
    (earlier : List Command) (session : Session) : Prop where
  source : session.source = lastSource earlier
  context : session.context = lastContext initial earlier
  reader : session.cache.read = read
  coherent : session.cache.Coherent
  lastGood : session.cache.lastGood = lastParsed? read earlier

variable {read : Text → Except ManifestError Manifest} {initial : Context}
  {earlier : List Command} {session : Session}

theorem Follows.of_isSilent {command : Command} (h : Follows read initial earlier session)
    (hsilent : command.IsSilent) : Follows read initial (earlier ++ [command]) session := by
  refine ⟨?_, ?_, h.reader, h.coherent, ?_⟩
  · rw [h.source, lastSource_of_source? earlier [] hsilent.source?, List.append_nil]
  · rw [h.context, lastContext_of_context? earlier [] hsilent.context?, List.append_nil]
  · rw [h.lastGood, lastParsed?_of_source? earlier [] hsilent.source?, List.append_nil]

theorem manifest_of_follows (hnil : (read []).toOption = none)
    (h : Follows read initial earlier session) :
    session.manifest.1 = (lastParsed? read earlier).getD .empty ∧
      Follows read initial earlier session.manifest.2 := by
  have hcache := Cache.get_of_coherent h.coherent session.version session.source
  -- The last update has had its text parsed, so that parsing it once more tells nothing new.
  have hlast : ((read session.source).toOption <|> session.cache.lastGood) =
      lastParsed? read earlier := by
    rw [h.source, h.lastGood, lastParsed?_eq_or hnil]
  refine ⟨?_, h.source, h.context, ?_, ?_, ?_⟩
  · change ((session.cache.get session.version session.source).1.map _).getD _ = _
    rw [hcache, Cache.served?_refresh, h.reader, ← hlast]
    cases read session.source with
    | ok manifest => simp [Except.toOption]
    | error e => simp [Except.toOption, Function.comp_def]
  · change (session.cache.get session.version session.source).2.read = _
    rw [hcache]
    exact h.reader
  · change (session.cache.get session.version session.source).2.Coherent
    rw [hcache]
    exact Cache.coherent_refresh _ _ _
  · change (session.cache.get session.version session.source).2.lastGood = _
    rw [hcache, ← hlast, ← h.reader]
    rfl

theorem update_of_follows (h : Follows read initial earlier session) (version : Int) (source : Text) :
    (session.update version source).1 = (read source).toOption.isNone ∧
      Follows read initial (earlier ++ [.update version source]) (session.update version source).2 := by
  have hcache := Cache.get_of_coherent h.coherent version source
  refine ⟨?_, ?_, ?_, ?_, ?_, ?_⟩
  · change (session.cache.get version source).1.all _ = _
    rw [hcache, Cache.served?_refresh, h.reader]
    cases read source with
    | ok manifest => rfl
    | error e => cases session.cache.lastGood <;> rfl
  · rw [lastSource_append_update]
    rfl
  · rw [lastContext_append_update, ← h.context]
    rfl
  · change (session.cache.get version source).2.read = _
    rw [hcache]
    exact h.reader
  · change (session.cache.get version source).2.Coherent
    rw [hcache]
    exact Cache.coherent_refresh _ _ _
  · change (session.cache.get version source).2.lastGood = _
    rw [hcache, lastParsed?_append_update, ← h.lastGood, ← h.reader]
    rfl

/-- A command is replied to as the commands ahead tell, and the session goes on following. -/
theorem Follows.perform (hnil : (read []).toOption = none)
    (h : Follows read initial earlier session) (command : Command) :
    (session.perform command).1 = command.reply read initial earlier ∧
      Follows read initial (earlier ++ [command]) (session.perform command).2 := by
  cases command with
  | update version source =>
    obtain ⟨hreply, hfollows⟩ := update_of_follows h version source
    refine ⟨?_, hfollows⟩
    change Reply.updated version (session.update version source).1 = _
    rw [hreply, Command.reply]
  | setContext document =>
    cases hparse : Context.parse document with
    | ok context =>
      have hperform : session.perform (.setContext document) =
          (.contextSet, { session with context }) := by
        simp [Session.perform, setContext, hparse]
      rw [hperform]
      refine ⟨by simp [Command.reply, hparse], ?_, ?_, h.reader, h.coherent, ?_⟩
      · rw [lastSource_of_source? earlier [] rfl, List.append_nil, ← h.source]
      · simp [lastContext, context?, hparse, Except.toOption]
      · rw [lastParsed?_of_source? earlier [] rfl, List.append_nil, ← h.lastGood]
    | error e =>
      have hperform : session.perform (.setContext document) = (.contextRefused e, session) := by
        simp [Session.perform, setContext, hparse]
      rw [hperform]
      exact ⟨by simp [Command.reply, hparse], h.of_isSilent ⟨e, hparse⟩⟩
  | complete position =>
    obtain ⟨hmanifest, hfollows⟩ := manifest_of_follows hnil h
    refine ⟨?_, hfollows.of_isSilent trivial⟩
    change Reply.completion (View.complete session.manifest.2.source position session.manifest.1
      session.manifest.2.context) = _
    rw [hmanifest, hfollows.source, hfollows.context, Command.reply]
  | lenses =>
    obtain ⟨hmanifest, hfollows⟩ := manifest_of_follows hnil h
    refine ⟨?_, hfollows.of_isSilent trivial⟩
    change Reply.lenses (View.lenses session.manifest.2.source session.manifest.1) = _
    rw [hmanifest, hfollows.source, Command.reply]

/-- From a session that follows the commands ahead, each command gets the reply that those tell. -/
theorem Follows.run (hnil : (read []).toOption = none)
    (h : Follows read initial earlier session) (commands : List Command) :
    session.run commands = commands.mapIdx fun i command =>
      command.reply read initial (earlier ++ commands.take i) := by
  -- With each step, a command moves from those to come to those ahead.
  induction commands generalizing earlier session with
  | nil => rfl
  | cons command commands ih =>
    obtain ⟨hreply, hfollows⟩ := h.perform hnil command
    rw [Session.run, List.mapIdx_cons, List.take_zero, List.append_nil]
    change (session.perform command).1 :: (session.perform command).2.run commands = _
    rw [hreply, ih hfollows]
    simp

/-- The session behind some commands. -/
def after (session : Session) (commands : List Command) : Session :=
  commands.foldl (fun session command => (session.perform command).2) session

theorem run_append (session : Session) (before more : List Command) :
    session.run (before ++ more) = session.run before ++ (session.after before).run more := by
  induction before generalizing session with
  | nil => rfl
  | cons command before ih =>
    change (session.perform command).1 :: (session.perform command).2.run (before ++ more) = _
    rw [ih]
    rfl

theorem Follows.after (hnil : (read []).toOption = none)
    (h : Follows read initial earlier session) (commands : List Command) :
    Follows read initial (earlier ++ commands) (session.after commands) := by
  induction commands generalizing earlier session with
  | nil =>
    rw [List.append_nil]
    exact h
  | cons command commands ih =>
    rw [List.append_cons]
    exact ih (h.perform hnil command).2

theorem Follows.run_perform_of_isSilent {command : Command} (hnil : (read []).toOption = none)
    (h : Follows read initial earlier session) (hsilent : command.IsSilent)
    (more : List Command) : (session.perform command).2.run more = session.run more := by
  rw [(h.perform hnil command).2.run hnil, h.run hnil]
  refine congrFun (congrArg List.mapIdx ?_) more
  funext i
  rw [← List.append_cons, reply_of_isSilent earlier _ hsilent]

theorem follows_start {document : Option String} {context : Context}
    (h : Context.parse document = .ok context) :
    ∃ session, startWith read document = .ok session ∧ Follows read context [] session :=
  ⟨{ context, cache := { read } }, by rw [startWith, h]; rfl, rfl, rfl, rfl, Cache.coherent_new,
    rfl⟩

/-- A session with a context that can be read replies to each command as the commands ahead tell,
and a silent command can be put in or left out without a change to any other reply. -/
theorem run_eq_mapIdx_reply (hnil : (read []).toOption = none) {document : Option String}
    {context : Context} (h : Context.parse document = .ok context) :
    ∃ session, startWith read document = .ok session ∧
      (∀ commands, session.run commands = commands.mapIdx fun i command =>
        command.reply read context (commands.take i)) ∧
      ∀ before command more, IsSilent command →
        (session.run (before ++ command :: more)).eraseIdx before.length =
          session.run (before ++ more) := by
  obtain ⟨session, hstart, hfollows⟩ := follows_start h
  refine ⟨session, hstart, fun commands => ?_, fun before command more hsilent => ?_⟩
  · simpa using hfollows.run hnil commands
  · have hlength : (session.run before).length = before.length := by
      rw [hfollows.run hnil, List.length_mapIdx]
    rw [run_append, run_append, List.eraseIdx_append_of_length_le hlength.le, hlength,
      Nat.sub_self]
    change _ ++ ((session.after before).perform command).2.run more = _
    rw [(hfollows.after hnil before).run_perform_of_isSilent hnil hsilent]

theorem run_eq_mapIdx_reply_refused :
    (Manifest.parse []).toOption = none ∧ Context.parse none = .ok .default ∧
      Context.parse (some "?") = .error .invalidJson ∧
      ∃ session, start none = .ok session ∧
        session.run [.update 1 "a: 1".toList, .setContext (some "?"), .update 2 "a: [".toList] =
          [.updated 1 false, .contextRefused .invalidJson, .updated 2 true] ∧
        (session.run [.update 1 "a: 1".toList, .setContext (some "?"),
          .update 2 "a: [".toList]).eraseIdx 1 =
            session.run [.update 1 "a: 1".toList, .update 2 "a: [".toList] := by
  have hnil : (Manifest.parse []).toOption = none :=
    Option.isNone_iff_eq_none.mp (by decide +kernel)
  have hdefault : Context.parse none = .ok .default := rfl
  have hrefused : Context.parse (some "?") = .error .invalidJson := by rfl
  obtain ⟨session, hstart, hrun, herase⟩ := run_eq_mapIdx_reply hnil hdefault
  refine ⟨hnil, hdefault, hrefused, session, hstart, ?_, ?_⟩
  · rw [hrun]
    decide +kernel
  · exact herase [.update 1 "a: 1".toList] (.setContext (some "?")) [.update 2 "a: [".toList]
      ⟨.invalidJson, hrefused⟩

end Session

end ManifestAssist
