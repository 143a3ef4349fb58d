import MipsImage.Proofs.EntryPoints

/-!
# Bodies of requests

What a request is answered, by what its body holds. Some bodies that hold no source, or no files,
are turned away as bad requests; the others among them count as errors of the server, and so does
the name of a file that is no text or that no header can hold.
-/
set_option autoImplicit false

namespace MipsImage

theorem Text.occursIn_iff {part t : Text} : occursIn part t = true ↔ part <:+: t := by
  induction t with
  | nil => rw [occursIn, decide_eq_true_eq, List.infix_nil]
  | cons c rest ih =>
    rw [occursIn, Bool.or_eq_true, List.isPrefixOf_iff_prefix, ih, List.infix_cons_iff]

/-! ## Empty values -/

/-- Null, false, zeros and what holds nothing. -/
inductive JsonValue.CountsAsEmpty : JsonValue → Prop
  | null : CountsAsEmpty .null
  | no : CountsAsEmpty (.bool false)
  | zero : CountsAsEmpty (.integer 0)
  | real {literal : Text} (rounded : isZeroLiteral literal = true) : CountsAsEmpty (.real literal)
  | string : CountsAsEmpty (.string [])
  | array : CountsAsEmpty (.array [])
  | object : CountsAsEmpty (.object [])

theorem JsonValue.isEmpty_iff {value : JsonValue} : value.isEmpty = true ↔ value.CountsAsEmpty := by
  constructor
  · intro h
    cases value with
    | null => exact .null
    | bool value =>
      cases value with
      | false => exact .no
      | true => cases h
    | integer value =>
      rw [of_decide_eq_true h]
      exact .zero
    | real literal => exact .real h
    | string text =>
      rw [List.isEmpty_iff.1 h]
      exact .string
    | array items =>
      rw [List.isEmpty_iff.1 h]
      exact .array
    | object members =>
      rw [List.isEmpty_iff.1 h]
      exact .object
  · intro empty
    cases empty with
    | real rounded => exact rounded
    | _ => rfl

namespace Service

/-! ## Statuses -/

/-- When a request is done, when it is refused as a bad one and when it fails. -/
structure Statuses (reply : Reply) (done refused failed : Prop) : Prop where
  done_iff : reply.status = 200 ↔ done
  refused_iff : reply.status = 400 ↔ refused
  failed_iff : reply.status = 500 ↔ failed

/-- One case is enough of three that leave out none. -/
theorem Statuses.of_cases {reply : Reply} {done refused failed : Prop}
    (hdone : done → reply.status = 200) (hrefused : refused → reply.status = 400)
    (hfailed : failed → reply.status = 500) (all : done ∨ refused ∨ failed) :
    Statuses reply done refused failed := by
  have status_iff {own : Nat} {case others : Prop} (hcase : case → reply.status = own)
      (hothers : others → reply.status ≠ own) (all : case ∨ others) :
      reply.status = own ↔ case :=
    ⟨fun h => all.resolve_right fun now => hothers now h, hcase⟩
  constructor
  · refine status_iff hdone ?_ all
    rintro (now | now)
    · simp [hrefused now]
    · simp [hfailed now]
  · refine status_iff hrefused ?_ (or_left_comm.1 all)
    rintro (now | now)
    · simp [hdone now]
    · simp [hfailed now]
  · refine status_iff hfailed ?_ (or_rotate.2 all)
    rintro (now | now)
    · simp [hdone now]
    · simp [hrefused now]

/-! ## Bodies with a source -/

/-- An object with a text for a source, and with whatever it says of the name of the file. -/
def HoldsSource (body : Option JsonValue) (source : Text) (file : Option JsonValue) : Prop :=
  ∃ members, body = some (.object members) ∧
    members.lookup "assembly".toText = some (.string source) ∧
    members.lookup "file_name".toText = file

/-- The bodies that do not so much as mention a source. -/
inductive Silent : Option JsonValue → Prop
  | none : Silent none
  | empty {value : JsonValue} (h : value.CountsAsEmpty) : Silent (some value)
  | object {members : List (Text × JsonValue)}
    (h : members.lookup "assembly".toText = Option.none) : Silent (some (.object members))
  | array {items : List JsonValue} (h : .string "assembly".toText ∉ items) :
    Silent (some (.array items))
  | string {text : Text} (h : ¬"assembly".toText <:+: text) : Silent (some (.string text))

/-- The bodies that mention a source and hold none. -/
def Misshapen (body : Option JsonValue) : Prop :=
  ¬Silent body ∧ ∀ source file, ¬HoldsSource body source file

section SourceBodies
variable {body : Option JsonValue} {source : Text} {file : Option JsonValue}

theorem ofBody_of_holdsSource (holds : HoldsSource body source file) :
    SourceBody.ofBody body = .source source file := by
  obtain ⟨members, rfl, given, named⟩ := holds
  simp only [SourceBody.ofBody, isEmpty_of_lookup given, given, named]
  rfl

theorem holdsSource_of_ofBody (h : SourceBody.ofBody body = .source source file) :
    HoldsSource body source file := by
  unfold SourceBody.ofBody at h
  split at h
  · cases h
  · split at h
    · cases h
    · split at h
      · split at h
        · cases h
        · rename_i given
          cases h
          exact ⟨_, rfl, given, rfl⟩
        · cases h
      · dsimp only at h
        split at h <;> cases h
      · split at h <;> cases h
      · cases h

theorem ofBody_of_silent (silent : Silent body) : SourceBody.ofBody body = .missing := by
  cases silent with
  | none => rfl
  | empty h => exact if_pos (JsonValue.isEmpty_iff.2 h)
  | object h =>
    rw [SourceBody.ofBody]
    split
    · rfl
    · simp only [h]
  | array h =>
    rw [SourceBody.ofBody]
    split
    · rfl
    · dsimp only
      split
      · rename_i named
        obtain ⟨item, member, same⟩ := List.any_eq_true.1 named
        split at same
        · rw [of_decide_eq_true same] at member
          exact absurd member h
        · cases same
      · rfl
  | string h =>
    rw [SourceBody.ofBody]
    split
    · rfl
    · exact if_neg fun found => h (Text.occursIn_iff.1 found)

theorem silent_of_ofBody (h : SourceBody.ofBody body = .missing) : Silent body := by
  unfold SourceBody.ofBody at h
  split at h
  · exact .none
  · split at h
    · rename_i empty
      exact .empty (JsonValue.isEmpty_iff.1 empty)
    · split at h
      · split at h
        · exact .object ‹_›
        · cases h
        · cases h
      · dsimp only at h
        split at h
        · cases h
        · rename_i unnamed
          refine .array fun member => unnamed ?_
          exact List.any_eq_true.2 ⟨_, member, decide_eq_true rfl⟩
      · split at h
        · cases h
        · rename_i absent
          exact .string fun found => absent (Text.occursIn_iff.2 found)
      · cases h

/-- A source that is no text is not turned away. -/
theorem misshapen_of_lookup {members : List (Text × JsonValue)} {value : JsonValue}
    (given : members.lookup "assembly".toText = some value) (other : ∀ text, value ≠ .string text) :
    Misshapen (some (.object members)) := by
  constructor
  · intro silent
    cases silent with
    | empty h =>
      rw [← JsonValue.isEmpty_iff, isEmpty_of_lookup given] at h
      cases h
    | object h =>
      rw [given] at h
      cases h
  · rintro source file ⟨_, same, text, -⟩
    cases same
    exact other source (Option.some.inj (given.symm.trans text))

theorem Misshapen.ofBody (misshapen : Misshapen body) : SourceBody.ofBody body = .unusable := by
  cases read : SourceBody.ofBody body with
  | missing => exact absurd (silent_of_ofBody read) misshapen.1
  | unusable => rfl
  | source source file => exact absurd (holdsSource_of_ofBody read) (misshapen.2 source file)

theorem shape (body : Option JsonValue) :
    Silent body ∨ Misshapen body ∨ ∃ source file, HoldsSource body source file := by
  by_cases silent : Silent body
  · exact .inl silent
  · by_cases holds : ∃ source file, HoldsSource body source file
    · exact .inr (.inr holds)
    · exact .inr (.inl ⟨silent, fun source file h => holds ⟨source, file, h⟩⟩)

end SourceBodies

/-! ## One source -/

/-- The image of a source that a request brings, or what keeps it from one. -/
def imageOf (limit : Option Int) (source : Text) : Except (Failure LocatedFault) Bytes :=
  (Assembly.ofLines limit (SourceLine.ofSource source)).image

/-- A download can be named after the file: there is a header for the text that names it, or for
what the program is called without a name. -/
def Nameable (header? : Text → Option Text) (file : Option JsonValue) : Prop :=
  ∃ n header, (file = none ∧ n = "program.asm".toText ∨ file = some (.string n)) ∧
    header? (outputName n) = some header

section Sources
variable {header? : Text → Option Text} {limit : Option Int} {body : Option JsonValue}

theorem reportOn_of_image {source : Text} {image : Bytes} (h : imageOf limit source = .ok image)
    (name : Option JsonValue) :
    ∃ report, reportOn limit source name = .ok report ∧ report.errors = [] := by
  unfold imageOf at h
  unfold reportOn Assembly.report
  rw [h]
  exact ⟨_, rfl, rfl⟩

theorem reportOn_of_fault {source : Text} {e : LocatedFault}
    (h : imageOf limit source = .error (.fault e)) (name : Option JsonValue) :
    ∃ report, reportOn limit source name = .ok report ∧ report.errors ≠ [] := by
  unfold imageOf at h
  unfold reportOn Assembly.report
  rw [h]
  exact ⟨_, rfl, List.cons_ne_nil _ _⟩

theorem reportOn_of_conversion {source : Text} {cause : Unconvertible}
    (h : imageOf limit source = .error (.conversion cause)) (name : Option JsonValue) :
    reportOn limit source name = .error cause := by
  unfold imageOf at h
  unfold reportOn Assembly.report
  rw [h]

/-- Null names no file, and only a text names a download. -/
theorem reportedName_eq_string_iff {file : Option JsonValue} {otherwise : String} {n : Text} :
    reportedName file otherwise = some (.string n) ↔
      file = none ∧ n = otherwise.toText ∨ file = some (.string n) := by
  unfold reportedName
  split
  · simp [JsonValue.ofString, eq_comm]
  · simp
  · simp

theorem nameable_iff {file : Option JsonValue} : Nameable header? file ↔
    ∃ n header, reportedName file "program.asm" = some (.string n) ∧
      header? (outputName n) = some header := by
  simp only [Nameable, reportedName_eq_string_iff]

/-- A source is assembled if the body holds one; no mention of it is a bad request, and any other
mention of it an error of the server. -/
theorem statuses_assembleReply (limit : Option Int) (body : Option JsonValue) :
    Statuses (assembleReply limit body)
      (∃ source file, HoldsSource body source file ∧
        ∀ cause, imageOf limit source ≠ .error (.conversion cause))
      (Silent body)
      (Misshapen body ∨ ∃ source file cause, HoldsSource body source file ∧
        imageOf limit source = .error (.conversion cause)) := by
  apply Statuses.of_cases
  case hdone =>
    rintro ⟨source, file, holds, short⟩
    have reported : ∃ report, reportOn limit source (reportedName file "<input>") = .ok report := by
      cases himage : imageOf limit source with
      | ok image => exact (reportOn_of_image himage _).imp fun _ h => h.1
      | error failure =>
        cases failure with
        | fault e => exact (reportOn_of_fault himage _).imp fun _ h => h.1
        | conversion cause => exact absurd himage (short cause)
    obtain ⟨report, hreport⟩ := reported
    simp only [assembleReply, ofBody_of_holdsSource holds, hreport]
    rfl
  case hrefused =>
    intro silent
    simp only [assembleReply, ofBody_of_silent silent]
    rfl
  case hfailed =>
    rintro (misshapen | ⟨source, file, cause, holds, unconverted⟩)
    · simp only [assembleReply, misshapen.ofBody]
      rfl
    · simp only [assembleReply, ofBody_of_holdsSource holds, reportOn_of_conversion unconverted]
      rfl
  case all =>
    rcases shape body with silent | misshapen | ⟨source, file, holds⟩
    · exact .inr (.inl silent)
    · exact .inr (.inr (.inl misshapen))
    · by_cases unconverted : ∃ cause, imageOf limit source = .error (.conversion cause)
      · obtain ⟨cause, h⟩ := unconverted
        exact .inr (.inr (.inr ⟨source, file, cause, holds, h⟩))
      · exact .inl ⟨source, file, holds, not_exists.1 unconverted⟩

/-- An image is sent if the body holds a source with an image and names the download; a source that
does not assemble is a bad request. -/
theorem statuses_exportReply (header? : Text → Option Text) (limit : Option Int)
    (body : Option JsonValue) :
    Statuses (exportReply header? limit body)
      (∃ source file image, HoldsSource body source file ∧ imageOf limit source = .ok image ∧
        Nameable header? file)
      (Silent body ∨ ∃ source file e, HoldsSource body source file ∧
        imageOf limit source = .error (.fault e))
      (Misshapen body ∨ ∃ source file, HoldsSource body source file ∧
        ((∃ cause, imageOf limit source = .error (.conversion cause)) ∨
          (∃ image, imageOf limit source = .ok image) ∧ ¬Nameable header? file)) := by
  apply Statuses.of_cases
  case hdone =>
    rintro ⟨source, file, image, holds, himage, nameable⟩
    obtain ⟨n, header, named, headed⟩ := nameable_iff.1 nameable
    obtain ⟨report, hreport, whole⟩ :=
      reportOn_of_image himage (reportedName file "program.asm")
    rw [named] at hreport
    simp only [exportReply, ofBody_of_holdsSource holds, named, hreport, headed]
    rw [if_neg (not_not_intro whole)]
    rfl
  case hrefused =>
    rintro (silent | ⟨source, file, e, holds, fault⟩)
    · simp only [exportReply, ofBody_of_silent silent]
      rfl
    · obtain ⟨report, hreport, faulty⟩ :=
        reportOn_of_fault fault (reportedName file "program.asm")
      simp only [exportReply, ofBody_of_holdsSource holds, hreport]
      rw [if_pos faulty]
      rfl
  case hfailed =>
    rintro (misshapen | ⟨source, file, holds, ⟨cause, unconverted⟩ | ⟨⟨image, himage⟩, unnamed⟩⟩)
    · simp only [exportReply, misshapen.ofBody]
      rfl
    · simp only [exportReply, ofBody_of_holdsSource holds, reportOn_of_conversion unconverted]
      rfl
    · obtain ⟨report, hreport, whole⟩ :=
        reportOn_of_image himage (reportedName file "program.asm")
      simp only [exportReply, ofBody_of_holdsSource holds, hreport]
      rw [if_neg (not_not_intro whole)]
      split
      · rename_i n named
        split
        · rename_i header headed
          exact absurd (nameable_iff.2 ⟨n, header, named, headed⟩) unnamed
        · rfl
      · rfl
  case all =>
    rcases shape body with silent | misshapen | ⟨source, file, holds⟩
    · exact .inr (.inl (.inl silent))
    · exact .inr (.inr (.inl misshapen))
    · cases himage : imageOf limit source with
      | ok image =>
        by_cases nameable : Nameable header? file
        · exact .inl ⟨source, file, image, holds, himage, nameable⟩
        · exact .inr (.inr (.inr ⟨source, file, holds, .inr ⟨⟨image, himage⟩, nameable⟩⟩))
      | error failure =>
        cases failure with
        | fault e => exact .inr (.inl (.inr ⟨source, file, e, holds, himage⟩))
        | conversion cause => exact .inr (.inr (.inr ⟨source, file, holds, .inl ⟨cause, himage⟩⟩))

end Sources

/-! ## Several files -/

/-- An object with an object of files. -/
def HoldsFiles (body : Option JsonValue) (files : List (Text × JsonValue)) : Prop :=
  ∃ members, body = some (.object members) ∧
    members.lookup "files".toText = some (.object files)

/-- The bodies in which files are looked for and not found. -/
inductive Fileless : Option JsonValue → Prop
  | none : Fileless none
  | empty {value : JsonValue} (h : value.CountsAsEmpty) : Fileless (some value)
  | object {members : List (Text × JsonValue)}
    (h : ∀ files, members.lookup "files".toText ≠ some (.object files)) :
    Fileless (some (.object members))

/-- The bodies in which nothing can be looked for. -/
def Memberless (body : Option JsonValue) : Prop :=
  ∃ value, body = some value ∧ ¬value.CountsAsEmpty ∧ ∀ members, value ≠ .object members

section Files
variable {limit : Option Int} {body : Option JsonValue}
  {files : List (Text × JsonValue)}

theorem texts_of_jobs? {jobs : List Job} (h : jobs? files = some jobs) :
    ∀ entry ∈ files, ∃ source, entry.2 = .string source := by
  induction files generalizing jobs with
  | nil => exact fun entry member => absurd member List.not_mem_nil
  | cons first rest ih =>
    obtain ⟨name, value⟩ := first
    cases value with
    | string source =>
      rw [jobs?, Option.map_eq_some_iff] at h
      obtain ⟨others, hothers, -⟩ := h
      exact List.forall_mem_cons.2 ⟨⟨source, rfl⟩, ih hothers⟩
    | _ => cases h

theorem batchReply_of_files (holds : HoldsFiles body files) :
    batchReply limit body =
      match jobs? (files.mergeSort fun a b => Text.atMost a.1 b.1) with
      | some jobs => .json 200 (.ofMembers
          [("results", .array ((jobs.map (Job.assemble limit)).map verdictContent))])
      | none => internalError "batch assembly" := by
  obtain ⟨members, rfl, given⟩ := holds
  have positive : batchWorkers.Positive := by
    show (1 : Int) ≤ 4
    decide
  simp only [batchReply, isEmpty_of_lookup given, given]
  cases jobs? (files.mergeSort fun a b => Text.atMost a.1 b.1) with
  | none => rfl
  | some jobs =>
    simp only [Option.map_some, assembleAll, runAll_of_positive positive]
    rfl

/-- Files are assembled if all of them are texts; no object of files is a bad request, and any other
value an error of the server. -/
theorem statuses_batchReply (limit : Option Int) (body : Option JsonValue) :
    Statuses (batchReply limit body)
      (∃ files, HoldsFiles body files ∧ ∀ entry ∈ files, ∃ source, entry.2 = .string source)
      (Fileless body)
      (Memberless body ∨ ∃ files, HoldsFiles body files ∧
        ∃ entry ∈ files, ∀ source, entry.2 ≠ .string source) := by
  -- sorting keeps the entries
  have sorted (files : List (Text × JsonValue)) :
      (files.mergeSort fun a b => Text.atMost a.1 b.1).Perm files := List.mergeSort_perm ..
  apply Statuses.of_cases
  case hdone =>
    rintro ⟨files, holds, texts⟩
    obtain ⟨jobs, hjobs, -, -⟩ :=
      jobs?_eq fun entry member => texts entry ((sorted files).mem_iff.1 member)
    simp only [batchReply_of_files holds, hjobs]
    rfl
  case hrefused =>
    intro fileless
    cases fileless with
    | none => rfl
    | empty h =>
      unfold batchReply
      simp only [JsonValue.isEmpty_iff.2 h]
      rfl
    | @object members h =>
      unfold batchReply
      dsimp only
      split
      · rfl
      · split
        · rename_i files given
          exact absurd given (h files)
        · rfl
  case hfailed =>
    rintro (⟨value, rfl, filled, shapeless⟩ | ⟨files, holds, entry, member, other⟩)
    · rw [← JsonValue.isEmpty_iff, Bool.not_eq_true] at filled
      unfold batchReply
      simp only [filled]
      cases value with
      | object members => exact absurd rfl (shapeless members)
      | _ => rfl
    · cases hjobs : jobs? (files.mergeSort fun a b => Text.atMost a.1 b.1) with
      | none =>
        simp only [batchReply_of_files holds, hjobs]
        rfl
      | some jobs =>
        obtain ⟨source, text⟩ := texts_of_jobs? hjobs entry ((sorted files).mem_iff.2 member)
        exact absurd text (other source)
  case all =>
    by_cases fileless : Fileless body
    · exact .inr (.inl fileless)
    · cases body with
      | none => exact absurd .none fileless
      | some value =>
        have filled : ¬value.CountsAsEmpty := fun empty => fileless (.empty empty)
        by_cases object : ∃ members, value = .object members
        · obtain ⟨members, rfl⟩ := object
          have given : ∃ files, members.lookup "files".toText = some (.object files) := by
            by_contra missing
            exact fileless (.object (not_exists.1 missing))
          obtain ⟨files, given⟩ := given
          by_cases texts : ∀ entry ∈ files, ∃ source, entry.2 = .string source
          · exact .inl ⟨files, ⟨members, rfl, given⟩, texts⟩
          · obtain ⟨entry, failing⟩ := not_forall.1 texts
            obtain ⟨member, other⟩ := Classical.not_imp.1 failing
            exact .inr (.inr (.inr ⟨files, ⟨members, rfl, given⟩, entry, member,
              not_exists.1 other⟩))
        · exact .inr (.inr (.inl ⟨value, rfl, filled, not_exists.1 object⟩))

end Files

/-! ## All bodies -/

/-- The status of every request, by what the body holds. A body without a source or without files is
answered as a bad request only if it does not mention them; a server error is due to its shape, to
the name of a file or to what cannot be converted in a source. -/
theorem statuses_of_bodies (header? : Text → Option Text) (limit : Option Int)
    (body : Option JsonValue) :
    Statuses (Endpoint.assemble.reply header? limit body)
      (∃ source file, HoldsSource body source file ∧
        ∀ cause, imageOf limit source ≠ .error (.conversion cause))
      (Silent body)
      (Misshapen body ∨ ∃ source file cause, HoldsSource body source file ∧
        imageOf limit source = .error (.conversion cause)) ∧
    Statuses (Endpoint.imageFile.reply header? limit body)
      (∃ source file image, HoldsSource body source file ∧
        imageOf limit source = .ok image ∧ Nameable header? file)
      (Silent body ∨ ∃ source file e, HoldsSource body source file ∧
        imageOf limit source = .error (.fault e))
      (Misshapen body ∨ ∃ source file, HoldsSource body source file ∧
        ((∃ cause, imageOf limit source = .error (.conversion cause)) ∨
          (∃ image, imageOf limit source = .ok image) ∧ ¬Nameable header? file)) ∧
    Statuses (Endpoint.batch.reply header? limit body)
      (∃ files, HoldsFiles body files ∧ ∀ entry ∈ files, ∃ source, entry.2 = .string source)
      (Fileless body)
      (Memberless body ∨ ∃ files, HoldsFiles body files ∧
        ∃ entry ∈ files, ∀ source, entry.2 ≠ .string source) := by
  refine ⟨?_, ?_, ?_⟩
  · exact statuses_assembleReply limit body
  · exact statuses_exportReply header? limit body
  · exact statuses_batchReply limit body

/-- A number is no source and no object of files, and yet not refused. -/
theorem number_not_refused :
    let number : Option JsonValue := some (.object [("assembly".toText, .integer 5)])
    let files : Option JsonValue := some (.integer 5)
    let header? : Text → Option Text := some
    (∀ source file, ¬HoldsSource number source file) ∧ (∀ members, ¬HoldsFiles files members) ∧
    (Endpoint.assemble.reply header? none number).status = 500 ∧
    (Endpoint.imageFile.reply header? none number).status = 500 ∧
    (Endpoint.batch.reply header? none files).status = 500 := by
  intro number files header?
  have misshapen : Misshapen number := by
    refine misshapen_of_lookup rfl fun text same => ?_
    cases same
  refine ⟨misshapen.2, ?_, ?_⟩
  · rintro members ⟨_, same : some (JsonValue.integer 5) = _, -⟩
    cases same
  · decide +kernel

end Service

end MipsImage
