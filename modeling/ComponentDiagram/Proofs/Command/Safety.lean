import ComponentDiagram.Command.Run
import ComponentDiagram.Command.Terminal
import ComponentDiagram.Proofs.Command.Files
import ComponentDiagram.Proofs.Print.Plain

/-! What the commands do to files. Only formatting and layout write, and only if they are asked to.
All that can fail after it is the line that says so. -/
namespace ComponentDiagram.Command

/-! ## Scripts that leave a part of the world as it is -/

/-- Whatever the host, the script keeps what is looked at, and if it ends early, it fails. -/
structure Keeps {β γ : Type} (look : World → γ) (m : Script β) : Prop where
  run : ∀ host w, match (m.run host).run w with
    | .ok _ w' => look w' = look w
    | .error stop w' => look w' = look w ∧ stop ≠ .exit 0

section

variable {β γ δ : Type} {look : World → γ}

theorem keeps_pure (b : β) : Keeps look (pure b : Script β) := ⟨fun _ _ => rfl⟩

theorem keeps_throw {stop : Stop} (h : stop ≠ .exit 0) : Keeps look (throw stop : Script β) :=
  ⟨fun _ _ => ⟨rfl, h⟩⟩

theorem keeps_crash (cause : Crash) : Keeps look (Script.crash cause : Script β) :=
  keeps_throw (by simp)

theorem keeps_modify {change : World → World} (h : ∀ w, look (change w) = look w) :
    Keeps look (modify change : Script Unit) :=
  ⟨fun _ => h⟩

theorem run_bind (m : Script β) (next : β → Script δ) (host : Host) (w : World) :
    ((m >>= next).run host).run w = match (m.run host).run w with
      | .ok b w' => ((next b).run host).run w'
      | .error stop w' => .error stop w' := by
  rw [ReaderT.run_bind, EStateM.run_bind]
  cases (m.run host).run w <;> rfl

theorem keeps_bind {m : Script β} {next : β → Script δ} (hm : Keeps look m)
    (hnext : ∀ b, Keeps look (next b)) : Keeps look (m >>= next) := by
  refine ⟨fun host w => ?_⟩
  have hfirst := hm.run host w
  rw [run_bind]
  cases hr : (m.run host).run w with
  | error stop w' =>
    rw [hr] at hfirst
    exact hfirst
  | ok b w' =>
    rw [hr] at hfirst
    have hsecond := (hnext b).run host w'
    simp only at hfirst ⊢
    rwa [hfirst] at hsecond

theorem keeps_get {next : World → Script β} (h : ∀ w, Keeps look (next w)) :
    Keeps look (get >>= next) :=
  ⟨fun host w => (h w).run host w⟩

theorem run_read (host : Host) (w : World) :
    ((read : Script Host).run host).run w = .ok host w := rfl

theorem run_say (stream : Stream) (text : String) (host : Host) (w : World) :
    ((Script.say stream text).run host).run w = match host.echo stream text with
      | some received => .ok () (w.receive received stream)
      | none => .error (.crash .unprintable) w := by
  simp only [Script.say, run_bind, run_read]
  cases host.echo stream text <;> rfl

theorem run_display (piece : Display) (host : Host) (w : World) :
    ((Script.display piece).run host).run w = match host.display piece with
      | some shown => .ok () { w with console := w.console ++ [shown] }
      | none => .error (.crash .unprintable) w := by
  simp only [Script.display, run_bind, run_read]
  cases host.display piece <;> rfl

theorem keeps_say {stream : Stream} (h : ∀ w s, look (World.receive w s stream) = look w)
    (text : String) : Keeps look (Script.say stream text) := by
  refine ⟨fun host w => ?_⟩
  rw [run_say]
  cases host.echo stream text with
  | some received => exact h w received
  | none => exact ⟨rfl, by simp⟩

theorem keeps_display (h : ∀ w pieces, look { w with console := pieces } = look w)
    (piece : Display) : Keeps look (Script.display piece) := by
  refine ⟨fun host w => ?_⟩
  rw [run_display]
  cases host.display piece with
  | some shown => exact h w _
  | none => exact ⟨rfl, by simp⟩

theorem Keeps.comp {ε : Type} {m : Script β} (h : Keeps look m) (f : γ → ε) :
    Keeps (f ∘ look) m := by
  refine ⟨fun host w => ?_⟩
  have hw := h.run host w
  split at hw
  · exact congrArg f hw
  · exact ⟨congrArg f hw.1, hw.2⟩

theorem keeps_forM {items : List δ} {act : δ → Script Unit} (h : ∀ item, Keeps look (act item)) :
    Keeps look (items.forM act) := by
  induction items with
  | nil => exact keeps_pure ()
  | cons item items ih => exact keeps_bind (h item) fun _ => ih

end

/-! ## Reading, parsing and laying out -/

section

variable {β γ : Type} {look : World → γ}
  (hlook : ∀ (w : World) (s : String), look (w.receive s .errors) = look w)

include hlook

theorem keeps_log (notes : List Note) : Keeps look (Script.log notes) := by
  refine keeps_get fun w => keeps_forM fun note => ?_
  split
  · exact keeps_modify fun w => hlook w _
  · exact keeps_pure ()

theorem keeps_fail (message : String) : Keeps look (Script.fail message : Script β) :=
  keeps_bind (keeps_say hlook _) fun _ => keeps_throw (by simp)

omit hlook in
theorem keeps_decode (content : ByteArray) : Keeps look (decode content) := by
  rw [decode]
  split
  · exact keeps_pure _
  · exact keeps_crash _

theorem keeps_readSource (file : Path) : Keeps look (readSource file) := by
  refine keeps_get fun w => ?_
  split
  · exact keeps_decode _
  · exact keeps_fail hlook _

theorem keeps_usableManifest (result : Except Manifest.Fault Manifest) :
    Keeps look (usableManifest result) := by
  rw [usableManifest.eq_def]
  split
  · exact keeps_pure _
  · exact keeps_fail hlook _
  · exact keeps_crash _
  · exact keeps_crash _
  · exact keeps_crash _

theorem keeps_loadManifest (path : Path) : Keeps look (loadManifest path) := by
  refine keeps_get fun w => ?_
  split
  · refine keeps_bind (keeps_decode _) fun text => ?_
    exact keeps_bind (keeps_log hlook _) fun _ => keeps_usableManifest hlook _
  · exact keeps_crash _
  · exact keeps_crash _
  · exact keeps_bind (keeps_log hlook _) fun _ => keeps_pure _

theorem keeps_resolveManifest (file : Path) (asked : Option Path) :
    Keeps look (resolveManifest file asked) := by
  rw [resolveManifest.eq_def]
  split
  · exact keeps_loadManifest hlook _
  · refine keeps_get fun w => ?_
    split
    · exact keeps_loadManifest hlook _
    · exact keeps_pure _

theorem keeps_reportFailure (file : Path) (format : ReportFormat) (failure : Grammar.Failure) :
    Keeps look (reportFailure file format failure : Script β) := by
  rw [reportFailure.eq_def]
  split
  · split <;> exact keeps_fail hlook _
  all_goals exact keeps_crash _

theorem keeps_parseOrFail (text : String) (file : Path) (format : ReportFormat) :
    Keeps look (parseOrFail text file format) := by
  refine keeps_bind (keeps_log hlook _) fun _ => ?_
  split
  · exact keeps_pure _
  · exact keeps_reportFailure hlook _ _ _

theorem keeps_laidOut (doc : Document Float) (manifest : Manifest) :
    Keeps look (laidOut doc manifest) := by
  refine keeps_bind (keeps_log hlook _) fun _ => ?_
  split
  · exact keeps_pure _
  · exact keeps_throw (by simp)

omit hlook in
theorem keeps_bounded (result : Except Unbounded β) : Keeps look (bounded result) := by
  rw [bounded.eq_def]
  split
  · exact keeps_pure _
  · exact keeps_crash _
  · exact keeps_crash _

end

/-! ## Reports -/

theorem keeps_files_say (stream : Stream) (text : String) :
    Keeps World.files (Script.say stream text) := by
  cases stream <;> exact keeps_say (fun _ _ => rfl) text

theorem keeps_files_display (piece : Display) : Keeps World.files (Script.display piece) :=
  keeps_display (fun _ _ => rfl) piece

/-- Diagnostics are reported one by one, or else that there are none. -/
theorem keeps_files_diagnostics (diagnostics : List Diagnostic) (stream : Stream)
    (line : Diagnostic → String) (none : String) : Keeps World.files (do
      diagnostics.forM fun d => Script.say stream (line d)
      if diagnostics.isEmpty then Script.printLine none) := by
  refine keeps_bind (keeps_forM fun d => keeps_files_say stream _) fun _ => ?_
  split
  · exact keeps_files_say .output _
  · exact keeps_pure ()

theorem keeps_runTokens (file : Path) (blanks : Bool) :
    Keeps World.files (runTokens file blanks) :=
  keeps_bind (keeps_readSource (fun _ _ => rfl) file) fun _ => keeps_files_display _

theorem keeps_showSummary (d : Diagram Float) : Keeps World.files (showSummary d) := by
  refine keeps_bind (keeps_files_display _) fun _ => ?_
  exact keeps_bind (keeps_files_display _) fun _ => keeps_files_display _

theorem keeps_runCheck (file : Path) (format : ReportFormat) :
    Keeps World.files (runCheck file format) := by
  have hstderr (w : World) (s : String) : (w.receive s .errors).files = w.files := rfl
  refine keeps_bind (keeps_readSource hstderr file) fun text => ?_
  refine keeps_bind (keeps_parseOrFail hstderr text file format) fun doc => ?_
  cases format with
  | editor => exact keeps_files_diagnostics doc.diagnostics .errors _ _
  | human =>
    refine keeps_bind (keeps_log hstderr _) fun _ => ?_
    refine keeps_bind (keeps_showSummary _) fun _ => ?_
    exact keeps_files_diagnostics doc.diagnostics .output _ _

theorem keeps_runBuild (file : Path) (asked : Option Path) (withLayout : Bool) :
    Keeps World.files (runBuild file asked withLayout) := by
  have hstderr (w : World) (s : String) : (w.receive s .errors).files = w.files := rfl
  refine keeps_bind (keeps_readSource hstderr file) fun text => ?_
  refine keeps_bind (keeps_resolveManifest hstderr file asked) fun manifest => ?_
  refine keeps_bind (keeps_parseOrFail hstderr text file .human) fun doc => ?_
  refine keeps_bind (keeps_log hstderr _) fun _ => ?_
  split
  · exact keeps_bind (keeps_laidOut hstderr doc manifest) fun _ => keeps_files_say .output _
  · exact keeps_bind (keeps_pure _) fun _ => keeps_files_say .output _

/-! ## Texts that are printed or written -/

/-- The text that a file is formatted to. -/
def formatted (file : Path) : Script String := do
  let text ← readSource file
  let doc ← parseOrFail text file .human
  bounded (Print.document doc)

/-- The text of a file with the positions of its layout. -/
def patchedText (file : Path) (asked : Option Path) : Script String := do
  let text ← readSource file
  let manifest ← resolveManifest file asked
  let doc ← parseOrFail text file .human
  Script.log (Build.notes doc)
  let d ← laidOut doc manifest
  let updated ← bounded (Print.updatePositions text d)
  Script.log [.debug .writing s!"Updated positions on {Print.patchedCount text d} lines"]
  return updated

theorem runFmt_eq (file : Path) (write : Bool) :
    runFmt file write = formatted file >>= (deliver file · write "Formatted") := by
  simp [runFmt, formatted]

theorem runLayout_eq (file : Path) (asked : Option Path) (write : Bool) :
    runLayout file asked write =
      patchedText file asked >>= (deliver file · write "Updated positions in") := by
  simp [runLayout, patchedText]

/-- A script that makes a text of a file, and prints and writes nothing. -/
structure Produces (file : Path) (m : Script String) : Prop where
  quiet : Keeps (fun w => (w.files, w.stdout)) m
  read : ∀ {host : Host} {w w' : World} {text : String}, (m.run host).run w = .ok text w' →
    ∃ content, w.files.read file = .ok content

theorem run_bind_ok {β γ : Type} {m : Script β} {next : β → Script γ} {host : Host} {w w' : World}
    {c : γ} (h : ((m >>= next).run host).run w = .ok c w') :
    ∃ b w₁, (m.run host).run w = .ok b w₁ ∧ ((next b).run host).run w₁ = .ok c w' := by
  rw [run_bind] at h
  cases hm : (m.run host).run w with
  | ok b w₁ =>
    rw [hm] at h
    exact ⟨b, w₁, rfl, h⟩
  | error stop w₁ =>
    rw [hm] at h
    cases h

theorem fail_fails {β : Type} {message : String} {host : Host} {w w' : World} {b : β} :
    ((Script.fail message : Script β).run host).run w ≠ .ok b w' := by
  intro h
  obtain ⟨_, _, -, hthrow⟩ := run_bind_ok h
  cases hthrow

theorem read_of_readSource {β : Type} {file : Path} {next : String → Script β} {host : Host}
    {w w' : World} {b : β} (h : ((readSource file >>= next).run host).run w = .ok b w') :
    ∃ content, w.files.read file = .ok content := by
  obtain ⟨text, w₁, htext, -⟩ := run_bind_ok h
  obtain ⟨w₀, _, hw, htext⟩ := run_bind_ok htext
  cases hw
  cases hr : w.files.read file with
  | ok content => exact ⟨content, rfl⟩
  | error e =>
    simp only [hr] at htext
    exact absurd htext fail_fails

theorem formatted_produces (file : Path) : Produces file (formatted file) := by
  refine ⟨?_, read_of_readSource⟩
  refine keeps_bind (keeps_readSource (fun _ _ => rfl) file) fun text => ?_
  exact keeps_bind (keeps_parseOrFail (fun _ _ => rfl) text file .human) fun doc => keeps_bounded _

theorem patchedText_produces (file : Path) (asked : Option Path) :
    Produces file (patchedText file asked) := by
  refine ⟨?_, read_of_readSource⟩
  refine keeps_bind (keeps_readSource (fun _ _ => rfl) file) fun text => ?_
  refine keeps_bind (keeps_resolveManifest (fun _ _ => rfl) file asked) fun manifest => ?_
  refine keeps_bind (keeps_parseOrFail (fun _ _ => rfl) text file .human) fun doc => ?_
  refine keeps_bind (keeps_log (fun _ _ => rfl) _) fun _ => ?_
  refine keeps_bind (keeps_laidOut (fun _ _ => rfl) doc manifest) fun d => ?_
  refine keeps_bind (keeps_bounded _) fun updated => ?_
  exact keeps_bind (keeps_log (fun _ _ => rfl) _) fun _ => keeps_pure _

theorem reportFailure_fails {β : Type} {host : Host} {w w' : World} {b : β} (file : Path)
    (format : ReportFormat) (failure : Grammar.Failure) :
    ((reportFailure file format failure).run host).run w ≠ .ok b w' := by
  intro h
  rw [reportFailure.eq_def] at h
  split at h
  · split at h <;> exact fail_fails h
  all_goals cases h

theorem eq_ok_of_bounded {β : Type} {host : Host} {w w' : World} {result : Except Unbounded β}
    {b : β} (h : ((bounded result).run host).run w = .ok b w') : result = .ok b := by
  rw [bounded.eq_def] at h
  split at h <;> cases h
  rfl

theorem parse_of_parseOrFail {host : Host} {w w' : World} {text : String} {file : Path}
    {format : ReportFormat} {doc : Document Float}
    (h : ((parseOrFail text file format).run host).run w = .ok doc w') :
    Grammar.parse text (some file) = .ok doc := by
  obtain ⟨_, w₁, -, h⟩ := run_bind_ok h
  rw [Grammar.parse]
  split at h
  · rename_i read hread
    cases h
    exact hread
  · exact absurd h (reportFailure_fails _ _ _)

/-- A formatted text holds no escape sequence. -/
theorem formatted_plain {file : Path} {host : Host} {w w' : World} {text : String}
    (h : ((formatted file).run host).run w = .ok text w') : ¬ Text.HoldsSequence text.toList := by
  obtain ⟨source, w₁, -, h⟩ := run_bind_ok h
  obtain ⟨doc, w₂, hdoc, h⟩ := run_bind_ok h
  have hparse := parse_of_parseOrFail hdoc
  exact (Grammar.parse_isRead hparse).holds_no_sequence readsBack_float (eq_ok_of_bounded h)

/-! ## Runs -/

/-- The task writes into its file. -/
def Task.writes : Task → Bool
  | .fmt write | .layout _ write => write
  | _ => false

/-- The same task, when it is not asked to write. -/
def Task.printing : Task → Task
  | .fmt _ => .fmt false
  | .layout manifest _ => .layout manifest false
  | task => task

/-- A task that writes makes a text and delivers it. -/
theorem runTask_writes (file : Path) {task : Task} (h : task.writes = true) : ∃ m success,
    Produces file m ∧ (task = .fmt true → m = formatted file) ∧
      runTask file task = m >>= (deliver file · true success) ∧
      runTask file task.printing = m >>= (deliver file · false success) := by
  cases task with
  | fmt write =>
    cases write with
    | false => cases h
    | true =>
      exact ⟨_, _, formatted_produces file, fun _ => rfl, runFmt_eq file true, runFmt_eq file false⟩
  | layout manifest write =>
    cases write with
    | false => cases h
    | true =>
      exact ⟨_, _, patchedText_produces file manifest, nofun, runLayout_eq file manifest true,
        runLayout_eq file manifest false⟩
  | _ => cases h

/-- A task that is not asked to write changes no file. -/
theorem keeps_runTask (file : Path) {task : Task} (h : task.writes = false) :
    Keeps World.files (runTask file task) := by
  cases task with
  | tokens blanks => exact keeps_runTokens file blanks
  | check format => exact keeps_runCheck file format
  | build manifest withLayout => exact keeps_runBuild file manifest withLayout
  | fmt write =>
    cases h
    rw [show runTask file (.fmt false) = _ from runFmt_eq file false]
    have hquiet := (formatted_produces file).quiet.comp Prod.fst
    exact keeps_bind hquiet fun text => keeps_files_say .output text
  | layout manifest write =>
    cases h
    rw [show runTask file (.layout manifest false) = _ from runLayout_eq file manifest false]
    have hquiet := (patchedText_produces file manifest).quiet.comp Prod.fst
    exact keeps_bind hquiet fun text => keeps_files_say .output text

theorem run_of_invocation {host : Host} {args : List String} {asked : Invocation}
    (h : (host.parsed args).invocation? = some asked) (files : FileTree) : run host files args =
      (runTask asked.file asked.task).outcome host { files, verbose := asked.verbose } := by
  rw [run]
  cases hp : host.parsed args with
  | command program verb options file =>
    rw [hp] at h
    cases h
    rfl
  | _ =>
    rw [hp] at h
    cases h

theorem outcome_eq (m : Script Unit) (host : Host) (w : World) :
    m.outcome host w = match (m.run host).run w with
      | .ok _ w' => ⟨.exit 0, w'⟩
      | .error stop w' => ⟨stop, w'⟩ :=
  rfl

theorem outcome_keeps {m : Script Unit} (h : Keeps World.files m) (host : Host) (w : World) :
    (m.outcome host w).world.files = w.files := by
  have hw := h.run host w
  rw [outcome_eq]
  cases hm : (m.run host).run w with
  | ok _ w' =>
    rw [hm] at hw
    exact hw
  | error stop w' =>
    rw [hm] at hw
    exact hw.1

/-- A script that makes a text fails, whether the text is to be written or not, or the text is
delivered in a world with the same files. -/
theorem outcome_produced {file : Path} {m : Script String} (h : Produces file m) (host : Host)
    (w : World) :
    (∃ out : Outcome, out.ending ≠ .exit 0 ∧ out.world.files = w.files ∧
      ∀ next : String → Script Unit, (m >>= next).outcome host w = out) ∨
    ∃ text w', (m.run host).run w = .ok text w' ∧ w'.files = w.files ∧ w'.stdout = w.stdout ∧
      ∀ next : String → Script Unit,
        (m >>= next).outcome host w = (next text).outcome host w' := by
  have hw := h.quiet.run host w
  cases hm : (m.run host).run w with
  | ok text w' =>
    rw [hm] at hw
    obtain ⟨hfiles, hstdout⟩ := Prod.mk.inj hw
    refine .inr ⟨text, w', rfl, hfiles, hstdout, fun next => ?_⟩
    rw [outcome_eq, run_bind, hm]
    rfl
  | error stop w' =>
    rw [hm] at hw
    obtain ⟨hfiles, -⟩ := Prod.mk.inj hw.1
    refine .inl ⟨⟨stop, w'⟩, hw.2, hfiles, fun next => ?_⟩
    rw [outcome_eq, run_bind, hm]

/-! ## What is delivered -/

/-- A text that is written is in its file, also if the line that says so cannot be shown. -/
theorem deliver_writes (file : Path) (text success : String) (host : Host) (w : World) :
    let out := (deliver file text true success).outcome host w
    out.world.files = w.files.write file text.toUTF8 ∧ (out.ending = .exit 0 ∨
      out.ending = .crash .unprintable ∧ ∃ piece, host.display piece = none) := by
  intro out
  let piece : Display := .styled s!"✓ {success} {file.toString}" .success
  have hout : out =
      (Script.display piece).outcome host { w with files := w.files.write file text.toUTF8 } := by
    simp only [out]
    rw [outcome_eq, deliver, if_pos rfl, run_bind]
    rfl
  rw [hout]
  refine ⟨outcome_keeps (keeps_files_display piece) host _, ?_⟩
  rw [outcome_eq, run_display]
  cases hshown : host.display piece with
  | some shown => exact .inl rfl
  | none => exact .inr ⟨rfl, piece, hshown⟩

/-- A text that is printed is what the stream receives of it, if it takes it. -/
theorem deliver_prints (file : Path) (text success : String) (host : Host) (w : World) :
    let out := (deliver file text false success).outcome host w
    out.world.files = w.files ∧
      (∀ received, host.echo .output text = some received →
        out.ending = .exit 0 ∧ out.world.stdout = w.stdout ++ received) ∧
      (host.echo .output text = none → out.ending = .crash .unprintable) := by
  intro out
  have hout : out = (Script.say .output text).outcome host w := rfl
  rw [hout]
  refine ⟨outcome_keeps (keeps_files_say .output text) host w, ?_⟩
  rw [outcome_eq, run_say]
  cases host.echo .output text with
  | some received => simp [World.receive]
  | none => simp

/-- What a task that writes comes to, and what it comes to when it prints. -/
theorem outcome_writes {task : Task} (h : task.writes = true) (file : Path) (host : Host)
    (w : World) :
    (∃ out : Outcome, out.ending ≠ .exit 0 ∧ out.world.files = w.files ∧
      (runTask file task).outcome host w = out ∧
      (runTask file task.printing).outcome host w = out) ∨
    ∃ text content w' success, w.files.read file = .ok content ∧
      (task = .fmt true → ¬ Text.HoldsSequence text.toList) ∧
      w'.files = w.files ∧ w'.stdout = w.stdout ∧
      (runTask file task).outcome host w = (deliver file text true success).outcome host w' ∧
      (runTask file task.printing).outcome host w =
        (deliver file text false success).outcome host w' := by
  obtain ⟨m, success, hm, hfmt, hwrite, hprint⟩ := runTask_writes file h
  rw [hwrite, hprint]
  rcases outcome_produced hm host w with
    ⟨out, hcode, hfiles, hout⟩ | ⟨text, w', hrun, hfiles, hstdout, hout⟩
  · exact .inl ⟨out, hcode, hfiles, hout _, hout _⟩
  · obtain ⟨content, hread⟩ := hm.read hrun
    refine .inr ⟨text, content, w', success, hread, fun hf => ?_, hfiles, hstdout, hout _, hout _⟩
    rw [hfmt hf] at hrun
    exact formatted_plain hrun

/-- A run that is not asked to write changes no file. -/
theorem run_keeps {host : Host} {args : List String}
    (h : ∀ asked, (host.parsed args).invocation? = some asked → asked.task.writes = false)
    (files : FileTree) : (run host files args).world.files = files := by
  rw [run]
  cases hp : host.parsed args with
  | answered => rfl
  | version => exact outcome_keeps (keeps_files_say .output _) host _
  | broken => rfl
  | command program verb options file =>
    rw [hp] at h
    exact outcome_keeps (keeps_runTask file (h _ rfl)) host _

/-! ## Safety -/

/-- Texts without escape sequences reach the stream for output as they are. -/
def Host.KeepsPlain (host : Host) : Prop := ∀ text received,
  ¬ Text.HoldsSequence text.toList → host.echo .output text = some received → received = text

/-- Texts with escape sequences do not: the stream is no terminal, and they are left out. -/
def Host.StripsSequences (host : Host) : Prop := ∀ text received,
  Text.HoldsSequence text.toList → host.echo .output text = some received → received ≠ text

/-- A run that fails changes no file, or it breaks off at the line that says that its file is
written. -/
theorem files_of_failed {host : Host} {files : FileTree} {args : List String}
    (hfails : (run host files args).ending ≠ .exit 0) :
    (run host files args).world.files = files ∨
      (run host files args).ending = .crash .unprintable ∧ (∃ piece, host.display piece = none) ∧
        ∃ asked text, (host.parsed args).invocation? = some asked ∧ asked.task.writes = true ∧
          files.IsRewritten (run host files args).world.files asked.file text := by
  by_cases h : ∀ asked, (host.parsed args).invocation? = some asked → asked.task.writes = false
  · exact .inl (run_keeps h files)
  · push Not at h
    obtain ⟨asked, hasked, hw⟩ := h
    have hw : asked.task.writes = true := by simpa using hw
    rw [run_of_invocation hasked] at hfails ⊢
    rcases outcome_writes hw asked.file host { files, verbose := asked.verbose } with
      ⟨out, -, hfiles, hout, -⟩ | ⟨text, content, w', success, hread, -, hw', -, hout, -⟩
    · rw [hout]
      exact .inl hfiles
    · rw [hout] at hfails ⊢
      obtain ⟨hfiles, hending⟩ := deliver_writes asked.file text success host w'
      obtain ⟨hcrash, hpiece⟩ := hending.resolve_left hfails
      refine .inr ⟨hcrash, hpiece, asked, text, hasked, hw, ?_⟩
      rw [hfiles, hw']
      exact FileTree.isRewritten_write hread text

/-- A run that succeeds has written its file, and the run that prints instead hands the same text to
the stream for output. -/
theorem written_of_succeeded {host : Host} {files : FileTree} {args : List String}
    {asked : Invocation} (hasked : (host.parsed args).invocation? = some asked)
    (hw : asked.task.writes = true) (hcode : (run host files args).ending = .exit 0) :
    ∃ text : String, files.IsRewritten (run host files args).world.files asked.file text ∧
      (asked.task = .fmt true → ¬ Text.HoldsSequence text.toList) ∧
      ∀ args', (host.parsed args').invocation? = some { asked with task := asked.task.printing } →
        (run host files args').world.files = files ∧
        (host.echo .output text = none → (run host files args').ending = .crash .unprintable) ∧
        ∀ received, host.echo .output text = some received →
          (run host files args').ending = .exit 0 ∧
          (run host files args').world.stdout = received := by
  rw [run_of_invocation hasked] at hcode ⊢
  rcases outcome_writes hw asked.file host { files, verbose := asked.verbose } with
    ⟨out, hne, -, hout, -⟩ |
      ⟨text, content, w', success, hread, hplain, hw', hstdout, hout, hprint⟩
  · rw [hout] at hcode
    exact absurd hcode hne
  · refine ⟨text, ?_, hplain, fun args' hasked' => ?_⟩
    · rw [hout, (deliver_writes asked.file text success host w').1, hw']
      exact FileTree.isRewritten_write hread text
    · rw [run_of_invocation hasked', hprint]
      obtain ⟨hfiles, htaken, hrefused⟩ := deliver_prints asked.file text success host w'
      refine ⟨hfiles.trans hw', hrefused, fun received hreceived => ?_⟩
      obtain ⟨hending, hreaches⟩ := htaken received hreceived
      rw [hstdout] at hreaches
      exact ⟨hending, hreaches.trans String.empty_append⟩

/-- Commands are safe on files, whatever runs them. A run that fails changes no file, unless it has
written its file and the console cannot show the line that says so. A run that is not asked to write
changes no file. A successful run that is asked to write changes its file only, and what it writes
is the text that the same command hands to the stream for output when it is not asked to. A
formatted text holds no escape sequence. -/
theorem run_safe (host : Host) (files : FileTree) (args : List String) :
    ((run host files args).ending ≠ .exit 0 → (run host files args).world.files = files ∨
      (run host files args).ending = .crash .unprintable ∧ (∃ piece, host.display piece = none) ∧
        ∃ asked text, (host.parsed args).invocation? = some asked ∧ asked.task.writes = true ∧
          files.IsRewritten (run host files args).world.files asked.file text) ∧
    ((∀ asked, (host.parsed args).invocation? = some asked → asked.task.writes = false) →
      (run host files args).world.files = files) ∧
    ∀ asked, (host.parsed args).invocation? = some asked → asked.task.writes = true →
      (run host files args).ending = .exit 0 → ∃ text : String,
        files.IsRewritten (run host files args).world.files asked.file text ∧
        (asked.task = .fmt true → ¬ Text.HoldsSequence text.toList) ∧
        ∀ args', (host.parsed args').invocation? =
            some { asked with task := asked.task.printing } →
          (run host files args').world.files = files ∧
          (host.echo .output text = none →
            (run host files args').ending = .crash .unprintable) ∧
          ∀ received, host.echo .output text = some received →
            (run host files args').ending = .exit 0 ∧
            (run host files args').world.stdout = received ∧
            (host.KeepsPlain → ¬ Text.HoldsSequence text.toList → received = text) ∧
            (host.StripsSequences → Text.HoldsSequence text.toList → received ≠ text) := by
  refine ⟨files_of_failed, fun h => run_keeps h files, fun asked hasked hw hcode => ?_⟩
  obtain ⟨text, hwritten, hplain, hprinted⟩ := written_of_succeeded hasked hw hcode
  refine ⟨text, hwritten, hplain, fun args' hasked' => ?_⟩
  obtain ⟨hfiles, hrefused, htaken⟩ := hprinted args' hasked'
  refine ⟨hfiles, hrefused, fun received hreceived => ?_⟩
  obtain ⟨hending, hstdout⟩ := htaken received hreceived
  exact ⟨hending, hstdout, fun hk hp => hk _ _ hp hreceived, fun hs hh => hs _ _ hh hreceived⟩

/-! ## Streams that are no terminals -/

theorem plainHost_keepsPlain : plainHost.KeepsPlain := by
  rintro text received hplain ⟨⟩
  exact Text.plain_eq_iff.mpr hplain

theorem plainHost_stripsSequences : plainHost.StripsSequences := by
  rintro text received hholds ⟨⟩ hsame
  exact Text.plain_eq_iff.mp hsame hholds

/-- One file in the current directory. -/
def oneFile (text : String) : FileTree :=
  { current := ["work"], entries := [(["work", "a.uml"], .file text.toUTF8)] }

def plainEdge : String := "a -> b : x\n"

theorem run_safe_plainEdge :
    (run plainHost (oneFile plainEdge) ["fmt", "-w", "a.uml"]).ending = .exit 0 ∧
      plainHost.KeepsPlain ∧ plainHost.StripsSequences ∧
      ∃ text : String, (oneFile plainEdge).IsRewritten
        (run plainHost (oneFile plainEdge) ["fmt", "-w", "a.uml"]).world.files ⟨"", ["a.uml"]⟩ text ∧
      (run plainHost (oneFile plainEdge) ["fmt", "a.uml"]).world.stdout = text := by
  have hending : (run plainHost (oneFile plainEdge) ["fmt", "-w", "a.uml"]).ending = .exit 0 := by
    decide +kernel
  obtain ⟨text, hwritten, hcalm, hprinted⟩ :=
    (run_safe plainHost (oneFile plainEdge) ["fmt", "-w", "a.uml"]).2.2
      ⟨false, .fmt true, ⟨"", ["a.uml"]⟩⟩ (by decide +kernel) rfl hending
  obtain ⟨-, -, hreceived⟩ := hprinted ["fmt", "a.uml"] (by decide +kernel)
  obtain ⟨-, hstdout, hkept, -⟩ := hreceived _ rfl
  exact ⟨hending, plainHost_keepsPlain, plainHost_stripsSequences, text, hwritten,
    hstdout.trans (hkept plainHost_keepsPlain (hcalm rfl))⟩

/-- An edge whose label holds an escape sequence. -/
def boldEdge : String := "a -> b : \x1b[1mx\n"

/-- The layout of a file is written with an escape sequence that is not printed. -/
theorem layout_prints_less :
    (plainHost.parsed ["layout", "-w", "a.uml"]).invocation? =
      some ⟨false, .layout none true, ⟨"", ["a.uml"]⟩⟩ ∧
    (plainHost.parsed ["layout", "a.uml"]).invocation? =
      some ⟨false, .layout none false, ⟨"", ["a.uml"]⟩⟩ ∧
    (run plainHost (oneFile boldEdge) ["layout", "-w", "a.uml"]).ending = .exit 0 ∧
    (run plainHost (oneFile boldEdge) ["layout", "-w", "a.uml"]).world.files.read
      ⟨"", ["a.uml"]⟩ = .ok boldEdge.toUTF8 ∧
    (run plainHost (oneFile boldEdge) ["layout", "a.uml"]).ending = .exit 0 ∧
    (run plainHost (oneFile boldEdge) ["layout", "a.uml"]).world.stdout ≠ boldEdge := by
  refine ⟨?_, ?_, ?_, ?_, ?_, ?_⟩ <;> decide +kernel

/-- A console that shows ASCII only. -/
def asciiHost : Host :=
  { plainHost with
    display := fun
      | .styled content style =>
        if content.toList.all (·.val < 128) then some (.styled content style) else none
      | piece => some piece }

/-- A file that is formatted stays formatted when the run breaks off after it. -/
theorem fmt_writes_then_crashes :
    (run asciiHost (oneFile plainEdge) ["fmt", "-w", "a.uml"]).ending = .crash .unprintable ∧
    (run asciiHost (oneFile plainEdge) ["fmt", "-w", "a.uml"]).world.files.read ⟨"", ["a.uml"]⟩ ≠
      .ok plainEdge.toUTF8 := by
  constructor <;> decide +kernel

end ComponentDiagram.Command
