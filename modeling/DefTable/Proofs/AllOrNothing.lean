import DefTable.CommandLine
import DefTable.Proofs.TableRendering

/-!
# Runs as a whole

A run leaves the files as they were or stores the whole generated file in the place of its output, and nothing between
the two (`runs_whole`). Storing a file in a place where there is no directory changes nothing else: all other paths lead
where they led, to what was there (`FileSystem.read_store_iff`).
-/

namespace DefTable

namespace FileSystem

/-! ## Places -/

/-- The place that a path leads to. The last name of the path may be new there. -/
def place (fs : FileSystem) (path : String) : Except FileError Location := do
  let cs ← checked path
  fs.walk (fs.start cs) (names cs)

def contentAt (fs : FileSystem) (l : Location) : Except FileError ByteArray :=
  match fs.entry? l with
  | none => .error .notFound
  | some .directory => .error .isDirectory
  | some (.file content) => .ok content

theorem read_eq (fs : FileSystem) (path : String) : fs.read path = fs.place path >>= fs.contentAt := by
  rw [read, place]
  cases checked path <;> rfl

theorem toOption_read (fs : FileSystem) (path : String) :
    (fs.read path).toOption = (fs.place path).toOption.bind fun l => (fs.contentAt l).toOption := by
  rw [read_eq]
  cases fs.place path <;> rfl

/-- What can be written is no directory and no path to one. -/
theorem place_of_writable {fs : FileSystem} {path : String} {l : Location} (h : fs.writable path = .ok l) :
    fs.place path = .ok l ∧ fs.isDirectory l = false := by
  rw [writable] at h
  rw [place]
  cases hc : checked path with
  | error e => rw [hc] at h; cases h
  | ok cs =>
    rw [hc] at h
    change (fs.walk (fs.start cs) (names (withoutSlashes cs)) >>= _) = _ at h
    cases hw : fs.walk (fs.start cs) (names (withoutSlashes cs)) with
    | error e => rw [hw] at h; cases h
    | ok l' =>
      rw [hw] at h
      change (if fs.isDirectory l' || withoutSlashes cs ≠ cs then _ else _) = _ at h
      split at h
      · cases h
      · next hfile =>
        cases h
        simp only [Bool.or_eq_true, decide_eq_true_eq, not_or, not_not, Bool.not_eq_true] at hfile
        obtain ⟨hfile, hslashes⟩ := hfile
        rw [hslashes] at hw
        exact ⟨hw, hfile⟩

/-! ## Storing a file -/

section
variable {fs : FileSystem} {l : Location} (hl : fs.isDirectory l = false) (content : ByteArray)
include hl

theorem ne_root_of_isDirectory : l ≠ [] := by
  rintro rfl
  cases hl

theorem entry?_store (l' : Location) :
    FileSystem.entry? (fs.store l content) l' = if l' = l then some (.file content) else fs.entry? l' := by
  have hroot := ne_root_of_isDirectory hl
  unfold entry? store
  rw [List.lookup_cons]
  by_cases h : l' = l
  · subst h
    rw [if_neg hroot, if_pos rfl, beq_self_eq_true]
  · rw [if_neg h, beq_eq_false_iff_ne.2 h]

/-- Directories are neither made nor lost. -/
theorem isDirectory_store (l' : Location) : (fs.store l content).isDirectory l' = fs.isDirectory l' := by
  by_cases h : l' = l
  · subst h
    rw [hl, isDirectory, entry?_store hl, if_pos rfl]
  · rw [isDirectory, isDirectory, entry?_store hl, if_neg h]

omit hl content in
/-- No name leads further from a place that is no directory. -/
theorem walk_of_file (hl : fs.isDirectory l = false) (name : List Char) (more : List (List Char)) :
    fs.walk l (name :: more) = .error .notDirectory := by
  rw [walk, hl]
  rfl

/-- Names lead where they led, if anywhere: the new one leads no further. -/
theorem toOption_walk_store : ∀ (ns : List (List Char)) (l' : Location),
    ((fs.store l content).walk l' ns).toOption = (fs.walk l' ns).toOption
  | [], _ => rfl
  | name :: more, l' => by
    rw [walk, walk, isDirectory_store hl, entry?_store hl]
    by_cases hdirectory : (!fs.isDirectory l') = true
    · rw [if_pos hdirectory, if_pos hdirectory]
    rw [if_neg hdirectory, if_neg hdirectory]
    by_cases hhere : name = [] ∨ name = ['.']
    · rw [if_pos hhere, if_pos hhere, toOption_walk_store more l']
    rw [if_neg hhere, if_neg hhere]
    by_cases hup : name = ['.', '.']
    · rw [if_pos hup, if_pos hup, toOption_walk_store more l'.tail]
    rw [if_neg hup, if_neg hup]
    by_cases hlong : 255 < Text.byteLength name
    · rw [if_pos hlong, if_pos hlong]
    rw [if_neg hlong, if_neg hlong]
    by_cases hnew : String.ofList name :: l' = l
    · rw [hnew, if_pos rfl]
      cases more with
      | nil => rfl
      | cons next more =>
        have hfile : (fs.store l content).isDirectory l = false := by rw [isDirectory_store hl, hl]
        rw [walk_of_file hfile, walk_of_file hl]
        split <;> split <;> rfl
    · rw [if_neg hnew]
      split
      · exact toOption_walk_store more _
      · rfl

theorem toOption_place_store (path : String) : ((fs.store l content).place path).toOption = (fs.place path).toOption := by
  rw [place, place]
  cases checked path with
  | error e => rfl
  | ok cs => exact toOption_walk_store hl content (names cs) (fs.start cs)

theorem contentAt_store (l' : Location) :
    (fs.store l content).contentAt l' = if l' = l then .ok content else fs.contentAt l' := by
  rw [contentAt, contentAt, entry?_store hl]
  by_cases h : l' = l
  · rw [if_pos h, if_pos h]
  · rw [if_neg h, if_neg h]

/-- **What is read from a path to the place is what was stored there, and all other paths show what they showed.** -/
theorem toOption_read_store (path : String) :
    ((fs.store l content).read path).toOption =
      if fs.place path = .ok l then some content else (fs.read path).toOption := by
  rw [toOption_read, toOption_read, toOption_place_store hl]
  cases fs.place path with
  | error e => rfl
  | ok l' =>
    show ((fs.store l content).contentAt l').toOption = if _ then some content else (fs.contentAt l').toOption
    rw [contentAt_store hl]
    by_cases h : l' = l
    · rw [if_pos h, if_pos (congrArg _ h)]
      rfl
    · rw [if_neg h, if_neg fun hok => h (Except.ok.inj hok)]

end

/-! ## Steps of a run -/

/-- The text of the file at a path. -/
def text (fs : FileSystem) (path : String) : Except FileError String :=
  match fs.read path with
  | .error e => .error e
  | .ok content =>
    match String.fromUTF8? content with
    | some text => .ok text
    | none => .error .notText

theorem text_of_read {fs : FileSystem} {path text : String} (h : fs.read path = .ok text.toUTF8) :
    fs.text path = .ok text := by
  have hback : String.fromUTF8? text.toUTF8 = some text := by
    simp only [String.fromUTF8?, String.toUTF8_eq_toByteArray, dif_pos text.isValidUTF8]
    rfl
  simp only [FileSystem.text, h, hback]

/-- What a step with a known end leads to. -/
theorem run_bind_of_run {α β : Type} {x : StateM FileSystem α} {fs fs' : FileSystem} {a : α} (h : x.run fs = (a, fs'))
    (f : α → StateM FileSystem β) : (x >>= f).run fs = (f a).run fs' := by
  rw [StateT.run_bind, h]
  rfl

theorem readText_run (fs : FileSystem) (path : String) : (storage.readText path).run fs = (fs.text path, fs) := by
  have hread : (storage.read path).run fs = (fs.read path, fs) := rfl
  rw [Storage.readText, run_bind_of_run hread, text]
  cases fs.read path with
  | error e => rfl
  | ok content =>
    dsimp only
    cases String.fromUTF8? content <;> rfl

theorem write_run (fs : FileSystem) (path : String) (content : ByteArray) :
    (storage.write path content).run fs =
      match fs.writable path with
      | .error e => (.error e, fs)
      | .ok l => (.ok (), fs.store l content) := by
  have hget : (get : StateM FileSystem FileSystem).run fs = (fs, fs) := rfl
  rw [storage, run_bind_of_run hget]
  cases fs.writable path <;> rfl

end FileSystem

open FileSystem (storage)

/-- The generated file of the source at a path, if there is one. -/
def Settings.generateFrom (s : Settings) (rules : Rules) (fs : FileSystem) (input : String) : Except GenerationError String :=
  match fs.text input with
  | .error e => .error (.unreadable input e.message)
  | .ok source => s.generate rules source

theorem Settings.generateFrom_eq (s : Settings) (rules : Rules) {fs : FileSystem} {input source : String}
    (h : fs.read input = .ok source.toUTF8) : s.generateFrom rules fs input = s.generate rules source := by
  rw [generateFrom, FileSystem.text_of_read h]

theorem Settings.generate_isOk {rules : Rules} (hrules : rules.AllowTables) {s : Settings}
    (hq : s.qualifier = Settings.default.qualifier) {source : String} {ds : List Definition}
    (hparse : Definition.parseAll source = .ok ds) : ∃ text, s.generate rules source = .ok text := by
  obtain ⟨text, htext⟩ := fileOf_isOk hrules hq (ds.map Node.minify)
  refine ⟨text, ?_⟩
  simp only [generate, hparse, htext]

/-- How a run ends, and what it leaves of the files. -/
theorem Settings.run_run (s : Settings) (rules : Rules) (fs : FileSystem) (input : String) (output : Option String) :
    (s.run rules storage input output).run fs =
      match s.generateFrom rules fs input, output with
      | .error e, _ => (.error e, fs)
      | .ok text, none => (.ok text, fs)
      | .ok text, some path =>
        match fs.writable path with
        | .error e => (.error (.unwritable path e.message), fs)
        | .ok l => (.ok "", fs.store l text.toUTF8) := by
  rw [run, FileSystem.run_bind_of_run (fs.readText_run input), generateFrom]
  cases fs.text input with
  | error e => rfl
  | ok source =>
    dsimp only
    cases s.generate rules source with
    | error e => rfl
    | ok text =>
      cases output with
      | none => rfl
      | some path =>
        dsimp only
        rw [FileSystem.run_bind_of_run (fs.write_run path text.toUTF8)]
        cases fs.writable path <;> rfl

/-! ## Whole runs -/

/-- The same files but for the one at a path, which holds the content. -/
structure FileSystem.Stored (fs : FileSystem) (path : String) (content : ByteArray) (fs' : FileSystem) : Prop where
  here : fs'.read path = .ok content
  /-- What other paths show; those that lead to the same place show the content as well. -/
  others : ∀ p, (fs'.read p).toOption = if fs.place p = fs.place path then some content else (fs.read p).toOption
  elsewhere : ∀ l, fs.place path ≠ .ok l → fs'.entry? l = fs.entry? l
  current : fs'.current = fs.current

theorem FileSystem.stored_store {fs : FileSystem} {path : String} {l : Location} (h : fs.writable path = .ok l)
    (content : ByteArray) : fs.Stored path content (fs.store l content) := by
  obtain ⟨hplace, hfile⟩ := place_of_writable h
  have hread := toOption_read_store hfile content
  have hhere : ((fs.store l content).read path).toOption = some content := by rw [hread, if_pos hplace]
  refine ⟨?_, fun p => ?_, fun l' hl' => ?_, rfl⟩
  · cases h : (fs.store l content).read path with
    | error e =>
      rw [h] at hhere
      cases hhere
    | ok content' =>
      rw [h] at hhere
      cases hhere
      rfl
  · rw [hplace, hread]
  · rw [entry?_store hfile, if_neg]
    rintro rfl
    exact hl' hplace

/-- How a run may end: it leaves the files alone if it fails or has no output, and else it leaves the generated file at
its output and nothing else. It fails only if there is no generated file or no place for it. -/
structure Settings.AllOrNothing (s : Settings) (rules : Rules) (fs : FileSystem) (input : String)
    (output : Option String) (result : Except GenerationError String) (fs' : FileSystem) : Prop where
  failed : ∀ e, result = .error e → fs' = fs
  shown : ∀ text, result = .ok text → output = none → s.generateFrom rules fs input = .ok text ∧ fs' = fs
  stored : ∀ shown path, result = .ok shown → output = some path →
    shown = "" ∧ ∃ text, s.generateFrom rules fs input = .ok text ∧ fs.Stored path text.toUTF8 fs'
  succeeds : ∀ text, s.generateFrom rules fs input = .ok text → (∀ path ∈ output, ∃ l, fs.writable path = .ok l) →
    ∃ shown, result = .ok shown

theorem Settings.run_allOrNothing (s : Settings) (rules : Rules) (fs : FileSystem) (input : String)
    (output : Option String) :
    s.AllOrNothing rules fs input output ((s.run rules storage input output).run fs).1
      ((s.run rules storage input output).run fs).2 := by
  rw [run_run]
  cases htext : s.generateFrom rules fs input with
  | error e =>
    refine ⟨fun _ _ => rfl, nofun, nofun, fun text h => ?_⟩
    rw [htext] at h
    cases h
  | ok text =>
    cases output with
    | none =>
      refine ⟨nofun, fun _ h _ => ?_, nofun, fun _ _ _ => ⟨text, rfl⟩⟩
      cases h
      exact ⟨htext, rfl⟩
    | some path =>
      cases hplace : fs.writable path with
      | error e =>
        simp only [hplace]
        refine ⟨fun _ _ => rfl, nofun, nofun, fun _ _ h => ?_⟩
        obtain ⟨l, hl⟩ := h path rfl
        rw [hplace] at hl
        cases hl
      | ok l =>
        simp only [hplace]
        refine ⟨nofun, nofun, fun _ _ hshown hpath => ?_, fun _ _ _ => ⟨"", rfl⟩⟩
        cases hshown
        cases hpath
        exact ⟨rfl, text, htext, FileSystem.stored_store hplace _⟩

section

variable {reader : List String → Except CommandLine.Answer CommandLine.Task} (rules : Rules)

/-- What the program answers to a request for a run, and what it leaves of the files. -/
theorem CommandLine.execute_run {arguments : List String} {task : Task} (h : reader arguments = .ok task)
    (fs : FileSystem) :
    (execute reader rules storage arguments).run fs =
      match (task.settings.run rules storage task.input task.output).run fs with
      | (.error e, fs') => (⟨1, "", report e⟩, fs')
      | (.ok text, fs') => (⟨0, text, ""⟩, fs') := by
  rw [execute, h]
  generalize hend : (task.settings.run rules storage task.input task.output).run fs = ending
  obtain ⟨result, fs'⟩ := ending
  show (task.settings.run rules storage task.input task.output >>= _).run fs = _
  rw [FileSystem.run_bind_of_run hend]
  cases result <;> rfl

end

/-- The answer of the program to a request for a run that ends with a result: it succeeds if the run does, and it shows
the generated file if that was not to be stored, and nothing else. -/
structure CommandLine.Answers (rules : Rules) (task : Task) (fs : FileSystem) (result : Except GenerationError String)
    (answer : Answer) : Prop where
  status : answer.status = 0 ↔ ∃ shown, result = .ok shown
  shown : answer.status = 0 → task.output = none → task.settings.generateFrom rules fs task.input = .ok answer.output
  silent : answer.status ≠ 0 ∨ task.output.isSome = true → answer.output = ""

/-- **A run is all or nothing.** It either fails and leaves the files as they were, or leaves the whole generated file at
its output and everything else as it was; and the program says which of the two, by its status and by what it shows,
however the arguments are read. -/
theorem runs_whole (rules : Rules) :
    (∀ (s : Settings) (fs : FileSystem) (input : String) (output : Option String),
      s.AllOrNothing rules fs input output ((s.run rules storage input output).run fs).1
        ((s.run rules storage input output).run fs).2) ∧
    ∀ (reader : List String → Except CommandLine.Answer CommandLine.Task) (fs : FileSystem) (arguments : List String)
      (task : CommandLine.Task), reader arguments = .ok task →
        ((CommandLine.execute reader rules storage arguments).run fs).2 =
            ((task.settings.run rules storage task.input task.output).run fs).2 ∧
          CommandLine.Answers rules task fs ((task.settings.run rules storage task.input task.output).run fs).1
            ((CommandLine.execute reader rules storage arguments).run fs).1 := by
  refine ⟨fun s => s.run_allOrNothing rules, fun reader fs arguments task h => ?_⟩
  have hrun := task.settings.run_allOrNothing rules fs task.input task.output
  rw [CommandLine.execute_run rules h]
  generalize (task.settings.run rules storage task.input task.output).run fs = ending at hrun ⊢
  obtain ⟨result, fs'⟩ := ending
  cases result with
  | error e => exact ⟨rfl, ⟨nofun, nofun⟩, nofun, fun _ => rfl⟩
  | ok text =>
    refine ⟨rfl, ⟨fun _ => ⟨text, rfl⟩, fun _ => rfl⟩, fun _ hnone => (hrun.shown text rfl hnone).1, ?_⟩
    rintro (hstatus | hsome)
    · exact absurd rfl hstatus
    · obtain ⟨path, hpath⟩ := Option.isSome_iff_exists.1 hsome
      exact (hrun.stored text path rfl hpath).1

/-- A source next to an older table, and a request that puts its own table in the place of the older one. -/
theorem runs_whole_replaced :
    let fs : FileSystem := ⟨[(["in.jq"], .file "def f: .;".toUTF8), (["out.rs"], .file "old".toUTF8)], []⟩
    let arguments := ["-i", "in.jq", "--output=out.rs"]
    let ending := (CommandLine.execute CommandLine.read Target.rules storage arguments).run fs
    CommandLine.read arguments = .ok ⟨"in.jq", some "out.rs", Settings.default⟩ ∧ ending.1.status = 0 ∧
      ending.1.output = "" ∧ ∃ text, Settings.default.generate Target.rules "def f: .;" = .ok text ∧
        fs.Stored "out.rs" text.toUTF8 ending.2 := by
  intro fs arguments ending
  have hread : CommandLine.read arguments = .ok ⟨"in.jq", some "out.rs", Settings.default⟩ := by decide +kernel
  have hsource : fs.read "in.jq" = .ok "def f: .;".toUTF8 := rfl
  have hparse : Definition.parseAll "def f: .;" = .ok [.definition "f" [] (Query.ofTerm (Term.ofKind .identity))] := by
    decide +kernel
  obtain ⟨hsettings, hprogram⟩ := runs_whole Target.rules
  obtain ⟨hfiles, hanswer⟩ := hprogram CommandLine.read fs arguments _ hread
  have hrun := hsettings Settings.default fs "in.jq" (some "out.rs")
  have hgenerate := Settings.default.generateFrom_eq Target.rules hsource
  obtain ⟨text, htext⟩ := Settings.generate_isOk Target.rules_allowTables rfl hparse
  obtain ⟨shown, hshown⟩ := hrun.succeeds text (hgenerate.trans htext) fun path hpath => by
    cases hpath
    exact ⟨["out.rs"], rfl⟩
  obtain ⟨-, stored, hstored, hwhole⟩ := hrun.stored shown "out.rs" hshown rfl
  rw [hgenerate] at hstored
  rw [← hfiles] at hwhole
  exact ⟨hread, hanswer.status.2 ⟨shown, hshown⟩, hanswer.silent (.inr rfl), stored, hstored, hwhole⟩

end DefTable
