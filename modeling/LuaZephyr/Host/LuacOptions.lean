import LuaZephyr.Host.Luac

/-!
# The command line of `luac`

What a command line is made of, and that `doargs` takes each of them apart and refuses all else.

Nothing is opened, read or written here: what a command line makes `luac` do is in
`Host.LuacRuns`. A command line is a list of words as the shell of the host passes them; quoting
and wildcards are the shell's. The grammar and the program are compared in both directions, so
that neither takes a word the other refuses.
-/

namespace LuaZephyr.Luac

open Outcome

inductive Opt where
  | list
  | output (name : Bytes)
  | parseOnly
  | strip
  | version
  deriving DecidableEq, Repr

namespace Opt

def words : Opt → List Bytes
  | list => [ascii "-l"]
  | output name => [ascii "-o", name]
  | parseOnly => [ascii "-p"]
  | strip => [ascii "-s"]
  | version => [ascii "-v"]

/-- A name that is not taken for an option. -/
def IsName (name : Bytes) : Prop := name.head? = some dash → name = ascii "-"

def Valid : Opt → Prop
  | output name => name ≠ [] ∧ IsName name
  | _ => True

end Opt

def Settings.with (s : Settings) : Opt → Settings
  | .list => { s with listing := s.listing + 1 }
  | .output name => { s with output := if name = ascii "-" then none else some name }
  | .parseOnly => { s with dumping := false }
  | .strip => { s with stripping := true }
  | .version => s

/-- How the options end, whether by dashes, and the files after them. -/
inductive Ends : List Bytes → Bool → List Bytes → Prop
  | nothing : Ends [] false []
  | dashes (files : List Bytes) : Ends (ascii "--" :: files) true files
  | file {name : Bytes} (hname : Opt.IsName name) (files : List Bytes) :
      Ends (name :: files) false (name :: files)

/-- The words of the options, and what comes after them. -/
structure Parses (words : List Bytes) (opts : List Opt) (dashes : Bool) (files : List Bytes) :
    Prop where
  valid : ∀ o ∈ opts, o.Valid
  words : ∃ rest, words = opts.flatMap Opt.words ++ rest ∧ Ends rest dashes files

/-- How often the version is asked for; the dashes count if it was asked for before. -/
def asked (opts : List Opt) (dashes : Bool) : Nat :=
  let n := opts.count .version
  if dashes ∧ n ≠ 0 then n + 1 else n

namespace Parses

variable {words files : List Bytes} {opts : List Opt} {dashes : Bool}

theorem nil (hends : Ends words dashes files) : Parses words [] dashes files :=
  ⟨fun _ h => absurd h List.not_mem_nil, words, rfl, hends⟩

theorem cons {o : Opt} (ho : o.Valid) (hparses : Parses words opts dashes files) :
    Parses (o.words ++ words) (o :: opts) dashes files := by
  obtain ⟨hvalid, rest, rfl, hends⟩ := hparses
  refine ⟨?_, rest, by rw [List.flatMap_cons, List.append_assoc], hends⟩
  intro o' ho'
  obtain rfl | ho' := List.mem_cons.mp ho'
  · exact ho
  · exact hvalid o' ho'

end Parses

theorem isName_iff (name : Bytes) :
    ¬ (name.head? = some dash ∧ name.tail ≠ []) ↔ Opt.IsName name := by
  cases name with
  | nil => simp [Opt.IsName]
  | cons c name =>
      cases name with
      | nil =>
          refine iff_of_true (fun h => h.2 rfl) fun h => ?_
          rw [Option.some.inj h]
          rfl
      | cons d name =>
          have hlong : c :: d :: name ≠ ascii "-" := by
            intro h
            exact absurd (List.cons.inj h).2 (List.cons_ne_nil _ _)
          simp [Opt.IsName, hlong]

theorem doargsLoop_ends {rest files : List Bytes} {dashes : Bool} (hends : Ends rest dashes files)
    (s : Settings) (version : Nat) :
    doargsLoop s version rest =
      pure (s, if dashes ∧ version ≠ 0 then version + 1 else version, files) := by
  cases hends with
  | nothing => rfl
  | dashes =>
      rw [doargsLoop.eq_def]
      dsimp only
      rw [if_neg (by decide), if_pos rfl]
      by_cases hversion : version = 0 <;> simp [hversion]
  | file hname files =>
      rename_i name
      rw [doargsLoop.eq_def]
      dsimp only
      by_cases hdash : name.head? = some dash
      · rw [hname hdash]
        rfl
      · rw [if_pos hdash]
        rfl

theorem doargsLoop_words {o : Opt} (ho : o.Valid) (s : Settings) (version : Nat)
    (argv : List Bytes) :
    doargsLoop s version (o.words ++ argv) =
      doargsLoop (s.with o) (version + [o].count .version) argv := by
  rw [doargsLoop.eq_def]
  cases o with
  | output name =>
      have hgood : ¬ (name = [] ∨ (name.head? = some dash ∧ name.tail ≠ [])) := by
        rintro (h | h)
        · exact ho.1 h
        · exact (isName_iff name).mpr ho.2 h
      dsimp only [Opt.words, List.cons_append]
      rw [if_neg (by decide), if_neg (by decide), if_neg (by decide), if_neg (by decide),
        if_pos rfl, List.nil_append, if_neg hgood]
      rfl
  | list => rfl
  | parseOnly => rfl
  | strip => rfl
  | version => rfl

theorem doargsLoop_parses {words files : List Bytes} {opts : List Opt} {dashes : Bool}
    (hparses : Parses words opts dashes files) (s : Settings) (version : Nat) :
    doargsLoop s version words = pure (opts.foldl Settings.with s,
      if dashes ∧ version + opts.count .version ≠ 0 then version + opts.count .version + 1
      else version + opts.count .version, files) := by
  obtain ⟨hvalid, rest, rfl, hends⟩ := hparses
  induction opts generalizing s version with
  | nil => exact doargsLoop_ends hends s version
  | cons o opts ih =>
      have hcount : (o :: opts).count .version = [o].count .version + opts.count .version := by
        rw [← List.count_append, List.singleton_append]
      rw [List.flatMap_cons, List.append_assoc, doargsLoop_words (hvalid o (List.mem_cons_self ..)),
        hcount, ← Nat.add_assoc]
      exact ih _ _ fun o' ho' => hvalid o' (List.mem_cons_of_mem _ ho')

/-- Every other command line is refused. -/
theorem doargsLoop_total (s : Settings) (version : Nat) (words : List Bytes) :
    (∃ opts dashes files, Parses words opts dashes files) ∨
      ∃ s' message, doargsLoop s version words = usage s' message := by
  have hafter {o : Opt} (ho : o.Valid) {argv : List Bytes} {m : LuacM (Settings × Nat × List Bytes)}
      (hrest : (∃ opts dashes files, Parses argv opts dashes files) ∨
        ∃ s' message, m = usage s' message) :
      (∃ opts dashes files, Parses (o.words ++ argv) opts dashes files) ∨
        ∃ s' message, m = usage s' message := by
    refine hrest.imp_left ?_
    rintro ⟨opts, dashes, files, hparses⟩
    exact ⟨o :: opts, dashes, files, hparses.cons ho⟩
  fun_induction doargsLoop s version words with
  | case1 s version => exact .inl ⟨[], false, [], .nil .nothing⟩
  | case2 s version arg argv hdash =>
      exact .inl ⟨[], false, _, .nil (.file (fun h => absurd h hdash) argv)⟩
  | case3 s version argv => exact .inl ⟨[], true, argv, .nil (.dashes argv)⟩
  | case4 s version argv => exact .inl ⟨[], false, _, .nil (.file (fun _ => rfl) argv)⟩
  | case5 s version argv _ _ _ ih => exact hafter (o := .list) trivial ih
  | case6 s => exact .inr ⟨s, _, rfl⟩
  | case7 s => exact .inr ⟨s, _, rfl⟩
  | case8 s version name argv hgood _ _ _ _ ih =>
      obtain ⟨hne, hname⟩ := not_or.mp hgood
      exact hafter (o := .output name) ⟨hne, (isName_iff name).mp hname⟩ ih
  | case9 s version argv _ _ _ _ _ ih => exact hafter (o := .parseOnly) trivial ih
  | case10 s version argv _ _ _ _ _ _ ih => exact hafter (o := .strip) trivial ih
  | case11 s version argv _ _ _ _ _ _ _ ih => exact hafter (o := .version) trivial ih
  | case12 s version arg => exact .inr ⟨s, arg, rfl⟩

def dashWords : Bool → List Bytes
  | false => []
  | true => [ascii "--"]

/-- Nothing but the version is asked for. -/
def VersionOnly (words : List Bytes) : Prop :=
  ∃ n dashes, words = List.replicate (n + 1) (ascii "-v") ++ dashWords dashes

theorem parses_versionOnly (n : Nat) (dashes : Bool) :
    Parses (List.replicate n (ascii "-v") ++ dashWords dashes) (List.replicate n .version)
      dashes [] := by
  induction n with
  | zero =>
      cases dashes with
      | false => exact .nil .nothing
      | true => exact .nil (.dashes [])
  | succ n ih =>
      have hcons := ih.cons (o := .version) trivial
      rwa [List.replicate_succ, List.replicate_succ]

/-- Nothing has happened, and nothing is there. -/
def HostState.empty : HostState :=
  ⟨fun _ => none, [], [], [], false, false, fun _ => false, 0⟩

theorem pure_injective {α : Type} {a b : α} (h : (pure a : LuacM α) = pure b) : a = b :=
  (EStateM.Result.ok.inj (congrFun h .empty)).1

theorem usage_ne_pure {α : Type} (s : Settings) (message : Bytes) (a : α) :
    usage s message ≠ (pure a : LuacM α) := by
  intro h
  have hrun := congrFun h .empty
  unfold usage at hrun
  split at hrun
  · cases hrun
  · cases hrun

/-- A command line can be taken apart in one way only, as far as the program sees. -/
theorem Parses.same {words files files' : List Bytes} {opts opts' : List Opt}
    {dashes dashes' : Bool} (hparses : Parses words opts dashes files)
    (hparses' : Parses words opts' dashes' files') (s : Settings) :
    opts.foldl Settings.with s = opts'.foldl Settings.with s ∧
      asked opts dashes = asked opts' dashes' ∧ files = files' := by
  have heq := pure_injective
    ((doargsLoop_parses hparses s 0).symm.trans (doargsLoop_parses hparses' s 0))
  simp only [Nat.zero_add, Prod.mk.injEq] at heq
  exact heq

theorem length_words (opts : List Opt) : opts.length ≤ (opts.flatMap Opt.words).length := by
  induction opts with
  | nil => exact Nat.le_refl _
  | cons o opts ih =>
      have ho : 1 ≤ o.words.length := by cases o <;> simp [Opt.words]
      rw [List.flatMap_cons, List.length_append, List.length_cons]
      omega

/-- Every word of the command line asks for the version. -/
theorem asked_eq_length_iff {words files : List Bytes} {opts : List Opt} {dashes : Bool}
    (hparses : Parses words opts dashes files) :
    (asked opts dashes ≠ 0 ∧ asked opts dashes = words.length) ↔ VersionOnly words := by
  constructor
  · rintro ⟨hne, hlength⟩
    obtain ⟨-, rest, rfl, hends⟩ := hparses
    have hwords := length_words opts
    have hcount := List.count_le_length (a := Opt.version) (l := opts)
    rw [List.length_append] at hlength
    -- An option with two words, another option or a file would make it longer.
    have hversions (heq : opts.count .version = (opts.flatMap Opt.words).length) :
        opts.flatMap Opt.words = List.replicate opts.length (ascii "-v") := by
      have hall := List.count_eq_length.mp (Nat.le_antisymm hcount (by omega))
      have hopts := List.eq_replicate_of_mem fun o ho => (hall o ho).symm
      conv_lhs => rw [hopts, List.flatMap_replicate]
      exact List.flatten_replicate_singleton
    cases hends with
    | nothing =>
        have hasked : asked opts false = opts.count .version := rfl
        rw [hasked] at hne hlength
        obtain ⟨n, hn⟩ := Nat.exists_eq_succ_of_ne_zero (n := opts.length) (by omega)
        exact ⟨n, false, by rw [hversions hlength, hn]; rfl⟩
    | dashes =>
        have hcounted : opts.count .version ≠ 0 := by
          intro hzero
          exact hne (by rw [asked, hzero]; rfl)
        have hasked : asked opts true = opts.count .version + 1 := by
          rw [asked, if_pos ⟨rfl, hcounted⟩]
        rw [hasked, List.length_cons] at hlength
        have hfiles : files = [] := List.length_eq_zero_iff.mp (by omega)
        obtain ⟨n, hn⟩ := Nat.exists_eq_succ_of_ne_zero (n := opts.length) (by omega)
        exact ⟨n, true, by rw [hversions (by omega), hn, hfiles]; rfl⟩
    | file hname files =>
        have hasked : asked opts false = opts.count .version := rfl
        rw [hasked, List.length_cons] at hlength
        omega
  · rintro ⟨n, dashes', rfl⟩
    obtain ⟨-, hasked, -⟩ := hparses.same (parses_versionOnly (n + 1) dashes') .start
    rw [hasked, asked, List.count_replicate_self]
    cases dashes' <;> simp [dashWords]

end LuaZephyr.Luac
