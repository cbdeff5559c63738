import LuaZephyr.Host.LuacOptions

/-!
# What a run of `luac` leaves behind

Whatever the host refuses and wherever, the program leaves with a message, and touches nothing
but the output file, and that only when every file has been compiled. With status 0 it has
written the whole bytecode; a listing may have been lost, since nobody looks whether the standard
output took it. Two runs do what C leaves undefined: the listing of a function whose instructions
point behind the ends of its arrays, and the message about an output that is the standard output
and has no name. What was refused is tied to the calls that the run made.
-/

namespace LuaZephyr.Luac

open Outcome

/-- The host has refused a call made between `h` and `t`, or a write to the standard output
before. -/
def Trouble (h t : HostState) : Prop :=
  h.stdoutError = true ∨ ∃ n, h.calls ≤ n ∧ n < t.calls ∧ h.fails n = true

theorem Trouble.later {h t t' : HostState} (htrouble : Trouble h t) (hcalls : t.calls ≤ t'.calls) :
    Trouble h t' := by
  refine htrouble.imp_right ?_
  rintro ⟨n, hfirst, hlast, hn⟩
  exact ⟨n, hfirst, Nat.lt_of_lt_of_le hlast hcalls, hn⟩

/-- Since `h` this text has been printed, if nothing went wrong with it, and these are the files
now. -/
structure Did (h : HostState) (text : Bytes) (files : Bytes → Option Bytes) (t : HostState) :
    Prop where
  stderr : t.stderr = h.stderr
  files : t.files = files
  fails : t.fails = h.fails
  calls : h.calls ≤ t.calls
  stdout : t.stdoutError = false → t.stdout = h.stdout ++ text
  trouble : t.stdoutError = true → Trouble h t

/-- The state after one more call of the host. -/
def HostState.counted (t : HostState) : HostState := { t with calls := t.calls + 1 }

/-- The program has left with a message, and with these files. -/
structure Failed (h : HostState) (files : Bytes → Option Bytes) (t : HostState) : Prop where
  message : ∃ m, m ≠ [] ∧ t.stderr = h.stderr ++ m
  files : t.files = files
  calls : h.calls ≤ t.calls

section Rules

variable {α : Type} {h t : HostState} {text : Bytes} {files : Bytes → Option Bytes}
  {E : Leave → HostState → Prop}

theorem Did.refl (h : HostState) : Did h [] h.files h :=
  ⟨rfl, rfl, rfl, Nat.le_refl _, fun _ => (List.append_nil _).symm, .inl⟩

theorem Did.counted (hdid : Did h text files t) : Did h text files t.counted :=
  ⟨hdid.stderr, hdid.files, hdid.fails, Nat.le_succ_of_le hdid.calls, hdid.stdout,
    fun herror => (hdid.trouble herror).later (Nat.le_succ _)⟩

theorem Did.trouble_of_fails (hdid : Did h text files t) (hn : t.fails t.calls = true) :
    Trouble h t.counted :=
  .inr ⟨t.calls, hdid.calls, Nat.lt_succ_self _, by rw [← hdid.fails, hn]⟩

theorem wp_hostFails (hdid : Did h text files t) {Q : Bool → HostState → Prop}
    (hrefused : Trouble h t.counted → Q true t.counted) (hdone : Q false t.counted) :
    wp hostFails Q E t := by
  simp only [hostFails, wp_bind, wp_get, wp_set, wp_pure]
  cases hn : t.fails t.calls with
  | true => exact hrefused (hdid.trouble_of_fails hn)
  | false => exact hdone

theorem wp_printOut (hdid : Did h text files t) (more : Bytes)
    {Q : Unit → HostState → Prop}
    (hok : ∀ t', Did h (text ++ more) files t' → t'.stdin = t.stdin → Q ⟨⟩ t') :
    wp (printOut more) Q E t := by
  have hcounted := hdid.counted
  refine wp_bind.mpr (wp_hostFails hdid (fun htrouble => ?_) ?_)
  · refine hok _ ⟨hcounted.stderr, hcounted.files, hcounted.fails, hcounted.calls, ?_,
      fun _ => htrouble⟩ rfl
    intro hno
    contradiction
  · refine hok _ ⟨hcounted.stderr, hcounted.files, hcounted.fails, hcounted.calls,
      fun hno => ?_, hcounted.trouble⟩ rfl
    show t.stdout ++ more = h.stdout ++ (text ++ more)
    rw [hdid.stdout hno, List.append_assoc]

theorem message_ne (name text : Bytes) : name ++ ascii ": " ++ text ≠ [] := by
  simp [ascii]

theorem wp_fatal (hdid : Did h text files t) {s : Settings} {message : Bytes}
    {Q : α → HostState → Prop}
    (hE : ∀ t', t'.calls = t.calls → Failed h files t' → E (.exit 1) t') :
    wp (fatal s message) Q E t := by
  refine hE _ rfl ⟨⟨s.progname ++ ascii ": " ++ message ++ ascii "\n", ?_, ?_⟩, hdid.files,
    hdid.calls⟩
  · rw [List.append_assoc]
    exact message_ne _ _
  · exact congrArg (· ++ _) hdid.stderr

theorem wp_cannot (core : LuacCore) (hdid : Did h text files t) {s : Settings} {what : Bytes}
    {Q : α → HostState → Prop} (hnone : s.output = none → E .undefined t)
    (hE : ∀ t', t'.calls = t.calls → Failed h files t' → E (.exit 1) t') :
    wp (cannot core s what) Q E t := by
  rw [cannot]
  cases houtput : s.output with
  | none => exact hnone houtput
  | some output =>
      refine hE _ rfl ⟨⟨_, ?_, congrArg (· ++ _) hdid.stderr⟩, hdid.files, hdid.calls⟩
      simp [ascii]

theorem wp_usage (hdid : Did h text files t) {s : Settings} {message : Bytes}
    {Q : α → HostState → Prop} (hE : ∀ t', Failed h files t' → E (.exit 1) t') :
    wp (usage s message) Q E t := by
  have hleave (line : Bytes) :
      E (.exit 1) { t with stderr := t.stderr ++ line ++ usageText s.progname } := by
    refine hE _ ⟨⟨line ++ usageText s.progname, ?_, ?_⟩, hdid.files, hdid.calls⟩
    · intro hnil
      have husage := (List.append_eq_nil_iff.mp hnil).2
      exact absurd (List.append_eq_nil_iff.mp husage).2 (by decide)
    · rw [hdid.stderr, List.append_assoc]
  unfold usage
  split
  · exact hleave _
  · exact hleave _

end Rules

/-- What a command line asks for: whether for the version, too, the settings and the files. -/
def Command (argv : List Bytes) (version : Bool) (s : Settings) (files : List Bytes) : Prop :=
  ∃ opts dashes named, Parses argv.tail opts dashes named ∧ ¬ VersionOnly argv.tail ∧
    version = decide (asked opts dashes ≠ 0) ∧
    (s, files) = (opts.foldl Settings.with (Settings.start.named argv)).inputs named

theorem Command.same {argv files files' : List Bytes} {v v' : Bool} {s s' : Settings}
    (hcommand : Command argv v s files) (hcommand' : Command argv v' s' files') :
    files' = files := by
  obtain ⟨opts, dashes, named, hparses, -, -, heq⟩ := hcommand
  obtain ⟨opts', dashes', named', hparses', -, -, heq'⟩ := hcommand'
  obtain ⟨hsettings, -, rfl⟩ := hparses.same hparses' (Settings.start.named argv)
  rw [hsettings, ← heq'] at heq
  exact (Prod.mk.inj heq).2.symm

def versionText (core : LuacCore) (version : Bool) : Bytes :=
  if version then core.copyright ++ ascii "\n" else []

/-- When `doargs` does not return. -/
def DoargsLeaves (core : LuacCore) (argv : List Bytes) (h : HostState) (e : Leave)
    (t : HostState) : Prop :=
  (e = .exit 0 ∧ VersionOnly argv.tail ∧ Did h (versionText core true) h.files t) ∨
    (e = .exit 1 ∧ ¬ VersionOnly argv.tail ∧ (∀ v s files, ¬ Command argv v s files) ∧
      Failed h h.files t)

theorem wp_doargs (core : LuacCore) (argv : List Bytes) (h : HostState) :
    wp (doargs core argv)
      (fun r t => ∃ v, Command argv v r.1 r.2 ∧ Did h (versionText core v) h.files t ∧
        t.stdin = h.stdin) (DoargsLeaves core argv h) h := by
  refine wp_bind.mpr ?_
  obtain ⟨opts, dashes, named, hparses⟩ | ⟨s, message, husage⟩ :=
    doargsLoop_total (Settings.start.named argv) 0 argv.tail
  · have honly := asked_eq_length_iff hparses
    rw [doargsLoop_parses hparses, wp_pure]
    simp only [Nat.zero_add]
    change wp (if asked opts dashes ≠ 0 then _ else _) _ _ h
    have hreturn {v : Bool} (hv : v = decide (asked opts dashes ≠ 0))
        (hnot : ¬ VersionOnly argv.tail) {t : HostState}
        (hdid : Did h (versionText core v) h.files t) (hstdin : t.stdin = h.stdin) :
        wp (pure ((opts.foldl Settings.with (Settings.start.named argv)).inputs named) :
            LuacM (Settings × List Bytes))
          (fun r t => ∃ v, Command argv v r.1 r.2 ∧ Did h (versionText core v) h.files t ∧
            t.stdin = h.stdin) (DoargsLeaves core argv h) t :=
      ⟨v, ⟨opts, dashes, named, hparses, hnot, hv, rfl⟩, hdid, hstdin⟩
    by_cases hasked : asked opts dashes = 0
    · rw [if_neg (not_not_intro hasked)]
      refine hreturn (decide_eq_false (not_not_intro hasked)).symm ?_ (.refl h) rfl
      intro hversion
      exact (honly.mpr hversion).1 hasked
    · rw [if_pos hasked]
      refine wp_bind.mpr (wp_printOut (.refl h) _ fun t hdid hstdin => ?_)
      have hlength : asked opts dashes + 1 = argv.length ↔ VersionOnly argv.tail := by
        rw [← honly, List.length_tail]
        omega
      change wp (if asked opts dashes + 1 = argv.length then _ else _) _ _ t
      by_cases hall : asked opts dashes + 1 = argv.length
      · rw [if_pos hall]
        exact .inl ⟨rfl, hlength.mp hall, hdid⟩
      · rw [if_neg hall]
        exact hreturn (decide_eq_true hasked).symm (mt hlength.mpr hall) hdid hstdin
  · have hno (opts : List Opt) (dashes : Bool) (named : List Bytes) :
        ¬ Parses argv.tail opts dashes named := fun hparses =>
      usage_ne_pure _ _ _ (husage.symm.trans (doargsLoop_parses hparses _ 0))
    rw [husage]
    refine wp_usage (Did.refl h) fun t hfailed => .inr ⟨rfl, ?_, ?_, hfailed⟩
    · rintro ⟨n, dashes, hwords⟩
      have hparses := parses_versionOnly (n + 1) dashes
      rw [← hwords] at hparses
      exact hno _ _ _ hparses
    · rintro v s files ⟨opts, dashes, named, hparses, -⟩
      exact hno _ _ _ hparses

/-- The functions of the files in their order. The standard input has its contents once. -/
def compiled (core : LuacCore) (files : Bytes → Option Bytes) :
    Bytes → List Bytes → Except Bytes (List Proto)
  | _, [] => .ok []
  | stdin, arg :: argv =>
      if arg = ascii "-" then
        (core.loadfile none (some stdin)).bind fun f =>
          (compiled core files [] argv).map (f :: ·)
      else
        (core.loadfile (some arg) (files arg)).bind fun f =>
          (compiled core files stdin argv).map (f :: ·)

/-- One function stands for itself; several are inside one that calls them. -/
def combined (core : LuacCore) (fs : List Proto) : Except Bytes Proto :=
  match fs with
  | [f] => .ok f
  | fs => (core.load (readerText fs.length)).map fun f => .mk f.fields (fs.map outsideStack)

/-- A function for each of the calls in the text. -/
def Nests (core : LuacCore) : Prop :=
  ∀ n f, core.load (readerText n) = .ok f → f.p.length = n

/-- Leaving with no file touched, for a reason. -/
def Refuses (h : HostState) (reason : Prop) (e : Leave) (t : HostState) : Prop :=
  e = .exit 1 ∧ Failed h h.files t ∧ (Trouble h t ∨ reason)

section Compiling

variable {core : LuacCore} {s : Settings} {h t : HostState} {text : Bytes}

theorem wp_luaLLoadfile (hdid : Did h text h.files t) (filename : Option Bytes)
    {Q : Except Bytes Proto → HostState → Prop} {E : Leave → HostState → Prop}
    (hrefused : ∀ t', Trouble h t' → Did h text h.files t' → Q (.error outOfMemory) t')
    (hok : ∀ t', Did h text h.files t' →
      t'.stdin = (match filename with | none => [] | some _ => t.stdin) →
      Q (core.loadfile filename (match filename with
        | none => some t.stdin
        | some name => h.files name)) t') :
    wp (luaLLoadfile core filename) Q E t := by
  have hcounted := hdid.counted
  refine wp_bind.mpr (wp_hostFails hdid (fun htrouble => ?_) ?_)
  · exact hrefused _ htrouble hcounted
  · cases filename with
    | none =>
        exact hok _ ⟨hcounted.stderr, hcounted.files, hcounted.fails, hcounted.calls,
          hcounted.stdout, hcounted.trouble⟩ rfl
    | some name =>
        have hfiles := hok _ hcounted rfl
        rw [← hdid.files] at hfiles
        exact hfiles

theorem wp_loadFiles (argv : List Bytes) (hdid : Did h text h.files t) (stack : List Proto) :
    wp (loadFiles core s argv stack)
      (fun r t' => ∃ fs, compiled core h.files t.stdin argv = .ok fs ∧ r = fs.reverse ++ stack ∧
        fs.length = argv.length ∧ Did h text h.files t')
      (Refuses h (∃ m, compiled core h.files t.stdin argv = .error m)) t := by
  induction argv generalizing stack t with
  | nil => exact ⟨[], rfl, rfl, rfl, hdid⟩
  | cons arg argv ih =>
      -- The rest of the files, after this one was compiled.
      have hrest {f : Proto} {stdin : Bytes} {t' : HostState} (hdid' : Did h text h.files t')
          (hstdin : t'.stdin = stdin) (heq : compiled core h.files t.stdin (arg :: argv) =
            (compiled core h.files stdin argv).map (f :: ·)) :
          wp (loadFiles core s argv (f :: stack))
            (fun r t'' => ∃ fs, compiled core h.files t.stdin (arg :: argv) = .ok fs ∧
              r = fs.reverse ++ stack ∧ fs.length = (arg :: argv).length ∧
              Did h text h.files t'')
            (Refuses h (∃ m, compiled core h.files t.stdin (arg :: argv) = .error m)) t' := by
        subst hstdin
        refine (ih hdid' (f :: stack)).mono ?_ ?_
        · rintro r t'' ⟨fs, hfs, rfl, hlength, hdid''⟩
          refine ⟨f :: fs, by rw [heq, hfs]; rfl, by simp, ?_, hdid''⟩
          rw [List.length_cons, List.length_cons, hlength]
        · rintro e t'' ⟨he, hfailed, hreason⟩
          refine ⟨he, hfailed, hreason.imp_right ?_⟩
          rintro ⟨m, hm⟩
          exact ⟨m, by rw [heq, hm]; rfl⟩
      refine wp_bind.mpr (wp_luaLLoadfile hdid _ (fun t' htrouble hdid' => ?_)
        fun t' hdid' hstdin => ?_)
      · exact wp_fatal hdid' fun _ hcalls hfailed =>
          ⟨rfl, hfailed, .inl (htrouble.later hcalls.ge)⟩
      · by_cases hdash : arg = ascii "-"
        · simp only [if_pos hdash] at hstdin ⊢
          cases hload : core.loadfile none (some t.stdin) with
          | error m =>
              refine wp_fatal hdid' fun _ _ hfailed => ⟨rfl, hfailed, .inr ⟨m, ?_⟩⟩
              rw [compiled, if_pos hdash, hload]
              rfl
          | ok f =>
              refine hrest hdid' hstdin ?_
              rw [compiled, if_pos hdash, hload]
              rfl
        · simp only [if_neg hdash] at hstdin ⊢
          cases hload : core.loadfile (some arg) (h.files arg) with
          | error m =>
              refine wp_fatal hdid' fun _ _ hfailed => ⟨rfl, hfailed, .inr ⟨m, ?_⟩⟩
              rw [compiled, if_neg hdash, hload]
              rfl
          | ok f =>
              refine hrest hdid' hstdin ?_
              rw [compiled, if_neg hdash, hload]
              rfl

/-- The functions are below the one that was loaded last, the first of them deepest. -/
theorem toproto_below (f : Proto) (fs : List Proto) {i : Nat} (hi : i < fs.length) :
    toproto (f :: fs.reverse) (i - fs.length - 1) = some fs[i] := by
  have hindex : (-((i : Int) - fs.length - 1) - 1).toNat = (fs.length - 1 - i) + 1 := by omega
  rw [toproto, hindex, List.getElem?_cons_succ, List.getElem?_reverse (by omega),
    List.getElem?_eq_getElem (by omega)]
  congr 2
  omega

/-- From the index `k` on; those before it are in place. -/
theorem wp_combineLoop (f : Proto) (fs : List Proto) {Q : List Proto → HostState → Prop}
    {E : Leave → HostState → Prop} (hQ : Q (fs.map outsideStack) t) (m k : Nat) (p : List Proto)
    (hk : k + m = fs.length) (hp : p.length = fs.length)
    (hdone : p.take k = (fs.map outsideStack).take k) :
    wp (combineLoop (f :: fs.reverse) fs.length (List.range' k m) p) Q E t := by
  induction m generalizing k p with
  | zero =>
      have hall : p = fs.map outsideStack := by
        rwa [List.take_of_length_le (by omega), List.take_of_length_le (by simp; omega)] at hdone
      rw [hall]
      exact hQ
  | succ m ih =>
      have hlt : k < fs.length := by omega
      rw [List.range'_succ, combineLoop, toproto_below f fs hlt]
      simp only [if_pos (hp.symm ▸ hlt : k < p.length)]
      refine ih (k + 1) _ (by omega) (by rw [List.length_set, hp]) ?_
      rw [List.take_add_one, List.take_add_one, List.take_set_of_le (Nat.le_refl k), hdone,
        List.getElem?_set_self (by omega), List.getElem?_map, List.getElem?_eq_getElem hlt]
      rfl

theorem wp_combine (hnests : Nests core) (hdid : Did h text h.files t) (fs : List Proto) :
    wp (combine core s fs.reverse fs.length)
      (fun f t' => combined core fs = .ok f ∧ Did h text h.files t')
      (Refuses h (∃ m, combined core fs = .error m)) t := by
  rw [combine]
  split
  · rename_i hone
    obtain ⟨f, rfl⟩ := List.length_eq_one_iff.mp hone
    exact ⟨rfl, hdid⟩
  · rename_i hone
    have hcombined : combined core fs =
        (core.load (readerText fs.length)).map fun f => .mk f.fields (fs.map outsideStack) := by
      unfold combined
      split
      · exact absurd rfl hone
      · rfl
    refine wp_bind.mpr (wp_bind.mpr (wp_hostFails hdid (fun htrouble => ?_) ?_))
    · rw [if_pos rfl, wp_pure]
      exact wp_fatal hdid.counted fun _ hcalls hfailed =>
        ⟨rfl, hfailed, .inl (htrouble.later hcalls.ge)⟩
    · rw [if_neg Bool.false_ne_true, wp_pure]
      cases hload : core.load (readerText fs.length) with
      | error m =>
          refine wp_fatal hdid.counted fun _ _ hfailed => ⟨rfl, hfailed, .inr ⟨m, ?_⟩⟩
          rw [hcombined, hload]
          rfl
      | ok f =>
          refine wp_bind.mpr ?_
          rw [List.range_eq_range']
          refine wp_combineLoop f fs ⟨?_, hdid.counted⟩ fs.length 0 f.p (Nat.zero_add _)
            (hnests _ f hload) rfl
          rw [hcombined, hload]
          rfl

end Compiling

def Stream.error (d : Stream) (t : HostState) : Bool :=
  match d with
  | .stdout => t.stdoutError
  | .file _ => t.outputError

/-- The output has been opened, and this was written to it if nothing went wrong with it. -/
inductive Dumping (h : HostState) (text written : Bytes) (t : HostState) : Stream → Prop
  | stdout (hdid : Did h (text ++ written) h.files t) : Dumping h text written t .stdout
  | file {path : Bytes} (hdid : Did h text t.files t)
      (hothers : ∀ other, other ≠ path → t.files other = h.files other)
      (hwritten : t.outputError = false → t.files path = some written)
      (htrouble : t.outputError = true → Trouble h t) : Dumping h text written t (.file path)

/-- Leaving when nothing but the output has been touched. There is no name for the standard
output in a message. -/
structure Interrupted (h : HostState) (s : Settings) (e : Leave) (t : HostState) : Prop where
  leaves : (e = .exit 1 ∧ Failed h t.files t) ∨ (e = .undefined ∧ s.output = none)
  trouble : Trouble h t
  others : ∀ path, s.output ≠ some path → t.files path = h.files path

/-- The output is complete. -/
def Wrote (h : HostState) (text : Bytes) (s : Settings) (data : Bytes) (t : HostState) : Prop :=
  match s.output with
  | none => Did h (text ++ data) h.files t ∧ t.stdoutError = false
  | some path => Did h text (Function.update h.files path (some data)) t

section Dump

variable {core : LuacCore} {s : Settings} {h t : HostState} {text written : Bytes} {d : Stream}
  {E : Leave → HostState → Prop}

namespace Dumping

theorem did (hdumping : Dumping h text written t d) : ∃ text, Did h text t.files t := by
  cases hdumping with
  | stdout hdid =>
      exact ⟨_, hdid.stderr, rfl, hdid.fails, hdid.calls, hdid.stdout, hdid.trouble⟩
  | file hdid => exact ⟨_, hdid⟩

theorem counted (hdumping : Dumping h text written t d) : Dumping h text written t.counted d := by
  cases hdumping with
  | stdout hdid => exact .stdout hdid.counted
  | file hdid hothers hwritten htrouble =>
      exact .file hdid.counted hothers hwritten fun herror =>
        (htrouble herror).later (Nat.le_succ _)

theorem trouble (hdumping : Dumping h text written t d) (herror : d.error t = true) :
    Trouble h t := by
  cases hdumping with
  | stdout hdid => exact hdid.trouble herror
  | file hdid hothers hwritten htrouble => exact htrouble herror

theorem others (hdumping : Dumping h text written t d) (path : Bytes) (hd : d ≠ .file path) :
    t.files path = h.files path := by
  cases hdumping with
  | stdout hdid => rw [hdid.files]
  | file hdid hothers =>
      refine hothers path ?_
      rintro rfl
      exact hd rfl

end Dumping

theorem wp_fwrite (hdumping : Dumping h text written t d) (piece : Bytes)
    {Q : Nat → HostState → Prop}
    (hok : ∀ n t', Dumping h text (written ++ piece) t' d →
      (n ≠ 1 → piece ≠ [] → d.error t' = true) → Q n t') :
    wp (fwrite piece d) Q E t := by
  rw [fwrite]
  split
  · rename_i hnil
    rw [← List.append_nil written, ← hnil] at hdumping
    exact hok 0 t hdumping fun _ hne => absurd hnil hne
  · obtain ⟨_, hdid⟩ := hdumping.did
    have hcounted := hdumping.counted
    refine wp_bind.mpr (wp_hostFails hdid (fun htrouble => ?_) ?_)
    · cases hcounted with
      | stdout hdid =>
          refine hok 0 _ (.stdout ⟨hdid.stderr, hdid.files, hdid.fails, hdid.calls,
            fun hno => ?_, fun _ => htrouble⟩) fun _ _ => rfl
          contradiction
      | file hdid hothers =>
          refine hok 0 _ (.file ⟨hdid.stderr, rfl, hdid.fails, hdid.calls, hdid.stdout,
            hdid.trouble⟩ hothers (fun hno => ?_) fun _ => htrouble) fun _ _ => rfl
          contradiction
    · cases hcounted with
      | stdout hdid =>
          refine hok 1 _ (.stdout ⟨hdid.stderr, hdid.files, hdid.fails, hdid.calls,
            fun hno => ?_, hdid.trouble⟩) fun hone => absurd rfl hone
          show t.stdout ++ piece = h.stdout ++ (text ++ (written ++ piece))
          rw [show t.stdout = h.stdout ++ (text ++ written) from hdid.stdout hno]
          simp only [List.append_assoc]
      | file hdid hothers hwritten htrouble =>
          rename_i path
          refine hok 1 _ (.file ⟨hdid.stderr, rfl, hdid.fails, hdid.calls, hdid.stdout,
            hdid.trouble⟩ (fun other hother => ?_) (fun hno => ?_) htrouble)
            fun hone => absurd rfl hone
          · exact (Function.update_of_ne hother _ _).trans (hothers other hother)
          · refine (Function.update_self ..).trans ?_
            rw [hwritten hno]
            rfl

theorem wp_luaUDump (hdumping : Dumping h text written t d) (pieces : List Bytes) :
    wp (luaUDump d pieces)
      (fun r t' => ∃ w, Dumping h text w t' d ∧ ((r = .error outOfMemory ∧ Trouble h t') ∨
        (r = .ok ⟨⟩ ∧ (d.error t' = true ∨ w = written ++ pieces.flatten)))) E t := by
  induction pieces generalizing written t with
  | nil => exact ⟨written, hdumping, .inr ⟨rfl, .inr (List.append_nil _).symm⟩⟩
  | cons piece pieces ih =>
      obtain ⟨_, hdid⟩ := hdumping.did
      refine wp_bind.mpr (wp_hostFails hdid (fun htrouble => ?_) ?_)
      · exact ⟨written, hdumping.counted, .inl ⟨rfl, htrouble⟩⟩
      · refine wp_bind.mpr (wp_bind.mpr (wp_fwrite hdumping.counted piece
          fun k t' hdumping' herror => ?_))
        rw [wp_pure]
        split
        · rename_i hstop
          obtain ⟨hk, hpiece⟩ := of_decide_eq_true hstop
          exact ⟨_, hdumping', .inr ⟨rfl, .inl (herror hk hpiece)⟩⟩
        · refine (ih hdumping').mono (fun r t'' => ?_) fun _ _ => id
          rw [List.flatten_cons, ← List.append_assoc]
          exact id

/-- The stream for the output. -/
def Settings.stream (s : Settings) : Stream :=
  match s.output with
  | none => .stdout
  | some path => .file path

theorem Dumping.untouched (hdumping : Dumping h text written t s.stream) {path : Bytes}
    (hpath : s.output ≠ some path) : t.files path = h.files path := by
  refine hdumping.others path ?_
  rw [Settings.stream]
  split
  · exact Stream.noConfusion
  · rintro ⟨⟩
    exact hpath ‹_›

/-- A message for a call that was refused. -/
theorem Dumping.failed (hdumping : Dumping h text written t s.stream) (htrouble : Trouble h t)
    {t' : HostState} (hcalls : t'.calls = t.calls) (hfailed : Failed h t.files t') :
    Interrupted h s (.exit 1) t' := by
  have hended : Failed h t'.files t' := ⟨hfailed.message, rfl, hfailed.calls⟩
  refine ⟨.inl ⟨rfl, hended⟩, htrouble.later hcalls.ge, fun path hpath => ?_⟩
  rw [hfailed.files]
  exact hdumping.untouched hpath

theorem Dumping.nameless (hdumping : Dumping h text written t s.stream) (htrouble : Trouble h t)
    (hnone : s.output = none) : Interrupted h s .undefined t :=
  ⟨.inr ⟨rfl, hnone⟩, htrouble, fun _ => hdumping.untouched⟩

theorem wp_openOutput (hdid : Did h text h.files t) :
    wp (openOutput core s) (fun d t' => d = s.stream ∧ Dumping h text [] t' d)
      (Interrupted h s) t := by
  rw [openOutput, Settings.stream]
  cases houtput : s.output with
  | none =>
      refine ⟨rfl, .stdout ?_⟩
      rwa [List.append_nil]
  | some path =>
      have hcounted := hdid.counted
      refine wp_bind.mpr (wp_bind.mpr (wp_hostFails hdid (fun htrouble => ?_) ?_))
      · rw [if_pos rfl, wp_pure]
        refine wp_cannot core hcounted (fun hnone => ?_) fun t' hcalls hfailed => ?_
        · exact absurd (houtput.symm.trans hnone) nofun
        · exact ⟨.inl ⟨rfl, hfailed.message, rfl, hfailed.calls⟩, htrouble.later hcalls.ge,
            fun _ _ => congrFun hfailed.files _⟩
      · refine ⟨rfl, .file ⟨hcounted.stderr, rfl, hcounted.fails, hcounted.calls,
          hcounted.stdout, hcounted.trouble⟩ ?_ (fun _ => Function.update_self ..)
          fun hno => absurd hno Bool.false_ne_true⟩
        intro other hother
        exact (Function.update_of_ne hother _ _).trans (congrFun hdid.files other)

theorem Dumping.wrote (hdumping : Dumping h text written t s.stream)
    (herror : s.stream.error t = false) : Wrote h text s written t := by
  rw [Settings.stream] at hdumping herror
  rw [Wrote]
  cases houtput : s.output with
  | none =>
      rw [houtput] at hdumping herror
      cases hdumping with
      | stdout hdid => exact ⟨hdid, herror⟩
  | some path =>
      rw [houtput] at hdumping herror
      cases hdumping with
      | file hdid hothers hwritten htrouble =>
          refine ⟨hdid.stderr, funext fun other => ?_, hdid.fails, hdid.calls, hdid.stdout,
            hdid.trouble⟩
          by_cases hother : other = path
          · rw [hother, hwritten herror, Function.update_self]
          · rw [hothers other hother, Function.update_of_ne hother]

theorem wp_ferror {Q : Bool → HostState → Prop} (hok : Q (d.error t) t) :
    wp (ferror d) Q E t := by
  cases d with
  | stdout => exact hok
  | file path => exact hok

theorem wp_dumpFunction (hdid : Did h text h.files t) (f : Proto) :
    wp (dumpFunction core s f)
      (fun _ t' => Wrote h text s (core.dump f s.stripping).flatten t') (Interrupted h s) t := by
  refine wp_bind.mpr ((wp_openOutput hdid).mono ?_ fun _ _ => id)
  rintro d t₁ ⟨rfl, hopened⟩
  refine wp_bind.mpr ((wp_luaUDump hopened _).mono ?_ fun _ _ => id)
  rintro r t₂ ⟨w, hdumping, hresult⟩
  obtain ⟨_, hdid₂⟩ := hdumping.did
  obtain ⟨rfl, htrouble⟩ | ⟨rfl, hdone⟩ := hresult
  · exact wp_fatal hdid₂ fun t' hcalls hfailed => hdumping.failed htrouble hcalls hfailed
  · refine wp_bind.mpr (wp_ferror ?_)
    cases herror : s.stream.error t₂ with
    | true =>
        have htrouble := hdumping.trouble herror
        exact wp_bind.mpr (wp_cannot core hdid₂ (hdumping.nameless htrouble)
          fun t' hcalls hfailed => hdumping.failed htrouble hcalls hfailed)
    | false =>
        obtain htrue | rfl := hdone
        · rw [herror] at htrue
          contradiction
        refine wp_bind.mpr (wp_hostFails hdid₂ (fun htrouble => ?_) ?_)
        · exact wp_cannot core hdid₂.counted (hdumping.counted.nameless htrouble)
            fun t' hcalls hfailed => hdumping.counted.failed htrouble hcalls hfailed
        · exact hdumping.counted.wrote herror

end Dump

/-- What the files are compiled to, or why not. -/
def program (core : LuacCore) (h : HostState) (files : List Bytes) : Except Bytes Proto :=
  (compiled core h.files h.stdin files).bind (combined core)

/-- The listing, if one is asked for and the function has one. -/
def listingText (core : LuacCore) (s : Settings) (f : Proto) : Option Bytes :=
  if s.listing ≠ 0 then printFunction core (1 < s.listing) f else some []

/-- How a run ends: its status, none when what it does is undefined, and what it leaves behind. -/
inductive Ended (core : LuacCore) (argv : List Bytes) (h : HostState) :
    Option Nat → HostState → Prop
  | version {t : HostState} (honly : VersionOnly argv.tail)
      (hdid : Did h (versionText core true) h.files t) : Ended core argv h (some 0) t
  | misused {t : HostState} (honly : ¬ VersionOnly argv.tail)
      (hmisused : ∀ v s files, Command argv v s files → files = [])
      (hfailed : Failed h h.files t) : Ended core argv h (some 1) t
  | refused {v : Bool} {s : Settings} {files : List Bytes} {t : HostState} {m : Bytes}
      (hcommand : Command argv v s files) (hfiles : files ≠ [])
      (hprogram : program core h files = .error m) (hfailed : Failed h h.files t) :
      Ended core argv h (some 1) t
  | interrupted {v : Bool} {s : Settings} {files : List Bytes} {t : HostState}
      (hcommand : Command argv v s files) (hfiles : files ≠ []) (htrouble : Trouble h t)
      (hfailed : Failed h t.files t)
      -- Only the output may have been touched, and not before all is compiled.
      (houtput : ∀ path, t.files path ≠ h.files path → s.output = some path ∧ s.dumping = true ∧
        ∃ f, program core h files = .ok f) : Ended core argv h (some 1) t
  | unlisted {v : Bool} {s : Settings} {files : List Bytes} {t : HostState} {f : Proto}
      (hcommand : Command argv v s files) (hfiles : files ≠ [])
      (hprogram : program core h files = .ok f)
      -- An instruction of the function points behind the end of one of its arrays.
      (hlisting : listingText core s f = none)
      (hdid : Did h (versionText core v) h.files t) : Ended core argv h none t
  | nameless {v : Bool} {s : Settings} {files : List Bytes} {t : HostState} {f : Proto}
      (hcommand : Command argv v s files) (hfiles : files ≠ [])
      (hprogram : program core h files = .ok f) (hdumping : s.dumping = true)
      -- The standard output is the output, and has no name for the message.
      (houtput : s.output = none) (htrouble : Trouble h t) (huntouched : t.files = h.files) :
      Ended core argv h none t
  | done {v : Bool} {s : Settings} {files : List Bytes} {t : HostState} {f : Proto}
      {listing : Bytes} (hcommand : Command argv v s files) (hfiles : files ≠ [])
      (hprogram : program core h files = .ok f) (hlisting : listingText core s f = some listing)
      (hdone : if s.dumping then
          Wrote h (versionText core v ++ listing) s (core.dump f s.stripping).flatten t
        else Did h (versionText core v ++ listing) h.files t) :
      Ended core argv h (some 0) t

/-- The program leaves as it should. -/
def EndsBy (core : LuacCore) (argv : List Bytes) (h : HostState) (e : Leave) (t : HostState) :
    Prop :=
  match e with
  | .exit status => Ended core argv h (some status) t
  | .undefined => Ended core argv h none t

section Main

variable {core : LuacCore} {argv : List Bytes} {h t : HostState} {v : Bool} {s : Settings}
  {files : List Bytes}

/-- Nothing has been touched yet. -/
theorem endsBy_untouched (hcommand : Command argv v s files) (hfiles : files ≠ []) {e : Leave}
    (hrefuses : Refuses h (∃ m, program core h files = .error m) e t) :
    EndsBy core argv h e t := by
  obtain ⟨rfl, hfailed, htrouble | ⟨m, hm⟩⟩ := hrefuses
  · have hended : Failed h t.files t := ⟨hfailed.message, rfl, hfailed.calls⟩
    refine .interrupted hcommand hfiles htrouble hended fun path hpath => ?_
    exact absurd (congrFun hfailed.files path) hpath
  · exact .refused hcommand hfiles hm hfailed

/-- The function is there, and what is left is to write it. -/
theorem wp_dumping (hcommand : Command argv v s files) (hfiles : files ≠ []) {f : Proto}
    (hprogram : program core h files = .ok f) {listing : Bytes}
    (hlisting : listingText core s f = some listing)
    (hdid : Did h (versionText core v ++ listing) h.files t) :
    wp (if s.dumping then dumpFunction core s f else pure ⟨⟩)
      (fun _ t' => Ended core argv h (some 0) t') (EndsBy core argv h) t := by
  split
  · rename_i hdumping
    refine (wp_dumpFunction hdid f).mono (fun _ t' hwrote => ?_) ?_
    · refine .done hcommand hfiles hprogram hlisting ?_
      rwa [if_pos hdumping]
    · rintro e t' ⟨⟨rfl, hfailed⟩ | ⟨rfl, hnone⟩, htrouble, hothers⟩
      · refine .interrupted hcommand hfiles htrouble hfailed fun path hpath => ?_
        refine ⟨?_, hdumping, f, hprogram⟩
        by_contra hno
        exact hpath (hothers path hno)
      · refine .nameless hcommand hfiles hprogram hdumping hnone htrouble ?_
        refine funext fun path => hothers path ?_
        rw [hnone]
        nofun
  · rename_i hdumping
    refine .done hcommand hfiles hprogram hlisting ?_
    rwa [if_neg hdumping]

theorem wp_pmain (hnests : Nests core) (hcommand : Command argv v s files) (hfiles : files ≠ [])
    (hdid : Did h (versionText core v) h.files t) (hstdin : t.stdin = h.stdin) :
    wp (pmain core s files) (fun _ t' => Ended core argv h (some 0) t') (EndsBy core argv h) t := by
  refine wp_bind.mpr (wp_hostFails hdid (fun htrouble => ?_) ?_)
  · refine wp_bind.mpr (wp_fatal hdid.counted fun t' hcalls hfailed => ?_)
    exact endsBy_untouched hcommand hfiles ⟨rfl, hfailed, .inl (htrouble.later hcalls.ge)⟩
  refine wp_bind.mpr ((wp_loadFiles files hdid.counted []).mono ?_ ?_)
  case refine_2 =>
    rintro e t' ⟨he, hfailed, hreason⟩
    refine endsBy_untouched hcommand hfiles ⟨he, hfailed, hreason.imp_right ?_⟩
    rintro ⟨m, hm⟩
    refine ⟨m, ?_⟩
    rw [program, ← hstdin]
    exact congrArg (fun r => Except.bind r (combined core)) hm
  rintro stack t₁ ⟨fs, hcompiled, rfl, hlength, hdid₁⟩
  have hprogram : program core h files = combined core fs := by
    rw [program, ← hstdin]
    exact congrArg (fun r => Except.bind r (combined core)) hcompiled
  rw [List.append_nil, ← hlength]
  refine wp_bind.mpr ((wp_combine hnests hdid₁ fs).mono ?_ ?_)
  case refine_2 =>
    rw [← hprogram]
    exact fun e t' => endsBy_untouched hcommand hfiles
  rintro f t₂ ⟨hcombined, hdid₂⟩
  rw [← hprogram] at hcombined
  change wp (if s.listing ≠ 0 then _ else _) _ _ t₂
  by_cases hlisting : s.listing = 0
  · rw [if_neg (not_not_intro hlisting)]
    have hempty : listingText core s f = some [] := if_neg (not_not_intro hlisting)
    refine wp_dumping hcommand hfiles hcombined hempty ?_
    rwa [List.append_nil]
  · have htext : listingText core s f = printFunction core (1 < s.listing) f := if_pos hlisting
    rw [if_pos hlisting]
    cases hlist : printFunction core (1 < s.listing) f with
    | none => exact .unlisted hcommand hfiles hcombined (htext.trans hlist) hdid₂
    | some text =>
        exact wp_bind.mpr (wp_printOut hdid₂ text fun t₃ hdid₃ _ =>
          wp_dumping hcommand hfiles hcombined (htext.trans hlist) hdid₃)

theorem wp_main (hnests : Nests core) (argv : List Bytes) (h : HostState) :
    wp (main core argv) (fun status t => Ended core argv h (some status) t)
      (EndsBy core argv h) h := by
  refine wp_bind.mpr ((wp_doargs core argv h).mono ?_ ?_)
  case refine_2 =>
    rintro e t (⟨rfl, honly, hdid⟩ | ⟨rfl, honly, hno, hfailed⟩)
    · exact .version honly hdid
    · exact .misused honly (fun v s files hcommand => absurd hcommand (hno v s files)) hfailed
  rintro ⟨s, files⟩ t₁ ⟨v, hcommand, hdid, hstdin⟩
  have hnot : ¬ VersionOnly argv.tail := by
    obtain ⟨_, _, _, -, honly, -⟩ := hcommand
    exact honly
  change wp (if files = [] then _ else _) _ _ t₁
  by_cases hfiles : files = []
  · rw [if_pos hfiles]
    refine wp_bind.mpr (wp_usage hdid fun t hfailed => .misused hnot ?_ hfailed)
    intro v' s' files' hcommand'
    rw [hcommand.same hcommand', hfiles]
  · rw [if_neg hfiles]
    refine wp_bind.mpr (wp_hostFails hdid (fun htrouble => ?_) ?_)
    · refine wp_bind.mpr (wp_fatal hdid.counted fun t' hcalls hfailed => ?_)
      exact endsBy_untouched hcommand hfiles ⟨rfl, hfailed, .inl (htrouble.later hcalls.ge)⟩
    · refine wp_bind.mpr ((wp_pmain hnests hcommand hfiles hdid.counted hstdin).mono ?_
        fun _ _ => id)
      exact fun _ _ => id

def emptyFields : ProtoFields := ⟨none, 0, 0, 0, false, 2, [], [], [], []⟩

theorem length_readerText (n : Nat) : (readerText n).length = functionText.length * n := by
  induction n with
  | zero => rfl
  | succ n ih => rw [readerText, List.length_append, ih, Nat.mul_succ, Nat.add_comm]

/-- Each file becomes a function with its contents as the source; the text of `combine` becomes
one with a function for each call. -/
def sampleCore : LuacCore where
  copyright := ascii "Lua 5.5"
  loadfile _ contents :=
    match contents with
    | none => .error (ascii "cannot open")
    | some text => .ok (.mk { emptyFields with source := some text } [])
  load text := .ok (.mk emptyFields
    (List.replicate (text.length / functionText.length) (.mk emptyFields [])))
  dump f _ := [[27, 76]] ++ (f :: f.p).map fun f => f.fields.source.getD []
  opcode _ := some .return0
  operands _ := ⟨0, 0, 0, 0, 0, 0, 0, 0, 0, 0, 0, false⟩
  opnames _ := ascii "RETURN0"
  maxArgC := 255
  funcline _ _ := some 1
  eventname _ := none
  formatNumber _ := []
  address _ := ascii "0x1"
  strerror := ascii "Permission denied"

theorem sampleCore_nests : Nests sampleCore := by
  intro n f hload
  obtain rfl := Except.ok.inj hload
  show (List.replicate ((readerText n).length / functionText.length) _).length = n
  rw [List.length_replicate, length_readerText, Nat.mul_div_cancel_left n (by decide)]

def twoFiles : HostState :=
  { HostState.empty with
    files := fun path =>
      if path = ascii "a.lua" then some (ascii "x=1")
      else if path = ascii "b.lua" then some (ascii "y=2") else none }

def twoFilesLine : List Bytes :=
  [ascii "luac", ascii "-o", ascii "ab.out", ascii "-s", ascii "a.lua", ascii "b.lua"]

/-- The standard output is closed, but the host refuses it: there is no name for the message. -/
example : (exec sampleCore [ascii "luac", ascii "-o", ascii "-", ascii "a.lua"]
    { twoFiles with fails := fun n => n = 7 }).1 = none := by decide +kernel

end Main

end LuaZephyr.Luac
