import MmHashChainSigs.Verify.ExitCode
import MmHashChainSigs.Verify.UnsignedTail

/-!
# Options and report

`main` of the tool in full: the loop over the options that `getopt_long` has
found, the usage errors, and the text that goes to the standard output.
-/

namespace MmHashChainSigs.Verify

open MmHashChainSigs.Foundation
open MmHashChainSigs.Common

variable {ossl : OpenSSL}

/-! ## Options -/

/-- What `getopt_long` returns, with its argument; `unknown` is a `?`. -/
inductive CliOption where
  | publickey (path : Bytes)
  | cert (path : Bytes)
  | caBundle (path : Bytes)
  | crlFile (path : Bytes)
  | verbose
  | quiet
  | strict
  | help
  | unknown
  deriving DecidableEq, Repr

structure Settings where
  opts : VerifierOpts := {}
  verbose : Bool := false
  quiet : Bool := false

/-- The switch of `main`; the usage is shown with the exit code. -/
def Settings.set (settings : Settings) : CliOption → Except Nat Settings
  | .publickey path =>
      .ok { settings with
        opts := { settings.opts with pubkeyPath := some path } }
  | .cert path =>
      .ok { settings with opts := { settings.opts with certPath := some path } }
  | .caBundle path =>
      .ok { settings with
        opts := { settings.opts with caBundlePath := some path } }
  | .crlFile path =>
      .ok { settings with opts := { settings.opts with crlFile := some path } }
  | .verbose => .ok { settings with verbose := true }
  | .quiet => .ok { settings with quiet := true }
  | .strict => .ok { settings with opts := { settings.opts with strict := true } }
  | .help => .error 0
  | .unknown => .error 2

/-- The loop ends at the first option that only asks for the usage. -/
def readOptions (options : List CliOption) : Except Nat Settings :=
  options.foldlM Settings.set {}

def CliOption.IsPrinting (option : CliOption) : Prop :=
  option = .quiet ∨ option = .verbose

instance (option : CliOption) : Decidable option.IsPrinting :=
  inferInstanceAs (Decidable (_ ∨ _))

theorem set_quiet {settings settings' : Settings} {option : CliOption}
    (h : settings.set option = .ok settings') :
    settings'.quiet = true ↔ settings.quiet = true ∨ option = .quiet := by
  cases option <;> cases h <;> simp

theorem readOptions_quiet {options : List CliOption} {settings : Settings}
    (h : readOptions options = .ok settings) :
    settings.quiet = true ↔ .quiet ∈ options := by
  have hloop : ∀ start : Settings, options.foldlM Settings.set start =
      .ok settings → (settings.quiet = true ↔
        start.quiet = true ∨ .quiet ∈ options) := by
    clear h
    induction options with
    | nil =>
        intro start hstart
        cases hstart
        simp
    | cons option options ih =>
        intro start hstart
        rw [List.foldlM_cons] at hstart
        cases hset : start.set option with
        | error code =>
            rw [hset] at hstart
            cases hstart
        | ok next =>
            rw [hset] at hstart
            rw [ih next hstart, set_quiet hset, List.mem_cons, or_assoc,
              @eq_comm _ option]
  simpa using hloop {} h

theorem readOptions_filter (options : List CliOption) :
    (readOptions (options.filter fun option => ¬ option.IsPrinting)).map
        Settings.opts =
      (readOptions options).map Settings.opts := by
  have hloop : ∀ start start' : Settings, start.opts = start'.opts →
      ((options.filter fun option => ¬ option.IsPrinting).foldlM Settings.set
          start).map Settings.opts =
        (options.foldlM Settings.set start').map Settings.opts := by
    induction options with
    | nil => exact fun start start' h => congrArg Except.ok h
    | cons option options ih =>
        intro start start' h
        by_cases hprinting : option.IsPrinting
        · rw [List.filter_cons_of_neg (by simpa using hprinting),
            List.foldlM_cons]
          rcases hprinting with rfl | rfl
          · exact ih start { start' with quiet := true } h
          · exact ih start { start' with verbose := true } h
        · rw [List.filter_cons_of_pos (by simpa using hprinting),
            List.foldlM_cons, List.foldlM_cons]
          cases option with
          | quiet => exact absurd (.inl rfl) hprinting
          | verbose => exact absurd (.inr rfl) hprinting
          | help => rfl
          | unknown => rfl
          | publickey path => exact ih _ _ (by simp only [h])
          | cert path => exact ih _ _ (by simp only [h])
          | caBundle path => exact ih _ _ (by simp only [h])
          | crlFile path => exact ih _ _ (by simp only [h])
          | strict => exact ih _ _ (by simp only [h])
  exact hloop {} {} rfl

def CliOption.Conflicts : CliOption → CliOption → Prop
  | .publickey path, .publickey path' => path ≠ path'
  | .cert path, .cert path' => path ≠ path'
  | .caBundle path, .caBundle path' => path ≠ path'
  | .crlFile path, .crlFile path' => path ≠ path'
  | .help, .unknown => True
  | .unknown, .help => True
  | _, _ => False

theorem set_comm {option option' : CliOption}
    (h : ¬ option.Conflicts option') (settings : Settings) :
    (settings.set option >>= fun next => next.set option') =
      (settings.set option' >>= fun next => next.set option) := by
  cases option <;> cases option' <;>
    simp_all [CliOption.Conflicts, Settings.set, bind, Except.bind]

theorem CliOption.Conflicts.symm {option option' : CliOption}
    (h : option.Conflicts option') : option'.Conflicts option := by
  cases option <;> cases option' <;> simp_all [CliOption.Conflicts, eq_comm]

theorem readOptions_perm {options options' : List CliOption}
    (hperm : options.Perm options')
    (h : options.Pairwise fun option option' =>
      ¬ option.Conflicts option') :
    readOptions options = readOptions options' := by
  unfold readOptions
  generalize ({} : Settings) = start
  induction hperm generalizing start with
  | nil => rfl
  | cons option hperm ih =>
      rw [List.foldlM_cons, List.foldlM_cons]
      exact bind_congr fun next => ih (List.pairwise_cons.mp h).2 next
  | swap option option' options =>
      have hpair := (List.pairwise_cons.mp h).1 option List.mem_cons_self
      rw [List.foldlM_cons, List.foldlM_cons]
      simp only [List.foldlM_cons]
      rw [← bind_assoc, ← bind_assoc, set_comm hpair]
  | trans hperm hperm' ih ih' =>
      have hmiddle := hperm.pairwise h fun hxy hyx => hxy hyx.symm
      exact (ih h start).trans (ih' hmiddle start)

/-! ## Report -/

def usage (prog : Bytes) : Bytes :=
  ascii "Usage: " ++ prog ++ ascii
    (" (-k <pubkey.pem> | -c <cert.pem> | -C <ca.pem>) [OPTIONS] <logfile>\n" ++
    "\n" ++
    "Trust anchor (exactly one is required):\n" ++
    "  -k, --publickey <path>  Raw PEM public key (Ed25519 or ECDSA P-256)\n" ++
    "  -c, --cert <path>       Pinned X.509 leaf certificate PEM\n" ++
    "  -C, --ca-bundle <path>  " ++
      "PEM bundle of CA certificates; the signer's cert\n" ++
    "                          " ++
      "must be embedded in the log and chain to a CA\n" ++
    "      --crl-file <path>   Optional CRL file (only with --ca-bundle)\n" ++
    "\n" ++
    "Options:\n" ++
    "  -v, --verbose           Print per-block verification details\n" ++
    "  -q, --quiet             Only output final pass/fail\n" ++
    "  -s, --strict            Fail if file does not end with a signature\n" ++
    "  -h, --help              Show this help\n")

/-- `line 0` stands for the file as a whole. -/
def errorText (e : VerifierError) : Bytes :=
  (if 0 < e.lineNum then ascii "  line " ++ number e.lineNum ++ ascii ": "
    else ascii "  ") ++ e.message

def report (ctx : VerifierCtx ossl) : Bytes :=
  if verifierPassed ctx then
    ascii "PASS: " ++ number ctx.msgCount ++ ascii " messages verified, " ++
      number ctx.sigCount ++ ascii " signature blocks\n"
  else
    ascii "FAIL: " ++ decimal ctx.errors.length ++
      ascii " error(s) detected" ++ 10 ::
        ctx.errors.flatMap fun e => errorText e ++ [10]

def details (ctx : VerifierCtx ossl) : Bytes :=
  ascii "\nDetails:\n  Messages:         " ++ number ctx.msgCount ++
    ascii "\n  Signature blocks: " ++ number ctx.sigCount ++
    ascii "\n  Last signed seq:  " ++ number ctx.lastSignedSeq ++ ascii "\n" ++
    if 0 < reportedTail ctx then
      ascii "  Unsigned tail:    " ++ number (reportedTail ctx) ++
        ascii " messages\n"
    else []

def printed (quiet verbose : Bool) (ctx : VerifierCtx ossl) : Bytes :=
  if quiet then []
  else report ctx ++ if verbose then details ctx else []

/-! ## The program -/

structure Outcome where
  exit : Nat
  out : Bytes := []
  err : Bytes := []
  deriving DecidableEq, Repr

/--
`main`.  A file is its contents, or the reason why it does not open; further
operands are not looked at.
-/
def main (ossl : OpenSSL) (fingerprintFails : Bool)
    (faults : Nat → VerifyFaults) (fopen : Bytes → Except Bytes Bytes)
    (prog : Bytes) (options : List CliOption) (operands : List Bytes) :
    Outcome :=
  match readOptions options with
  | .error code => { exit := code, err := usage prog }
  | .ok { opts, verbose, quiet } =>
      let trust := [opts.pubkeyPath, opts.certPath, opts.caBundlePath]
      if (trust.filter Option.isSome).length ≠ 1 then
        { exit := 2
          err := ascii ("Error: exactly one of --publickey, --cert, " ++
            "or --ca-bundle is required\n") ++ usage prog }
      else if opts.crlFile.isSome ∧ opts.caBundlePath = none then
        { exit := 2, err := ascii "Error: --crl-file requires --ca-bundle\n" }
      else
        match operands with
        | [] =>
            { exit := 2
              err := ascii "Error: log file path required\n" ++ usage prog }
        | path :: _ =>
            match verifierInit ossl fingerprintFails opts with
            | none =>
                { exit := 2
                  err := ascii ("Error: failed to initialize verifier " ++
                    "(check key/cert paths and formats)\n") }
            | some ctx =>
                match fopen path with
                | .error reason =>
                    { exit := 2
                      err := ascii "Error: cannot open " ++ path ++
                        ascii ": " ++ reason ++ ascii "\n" }
                | .ok file =>
                    let ctx := verifierFinalize
                      (readLoop ctx (fileCalls faults file)).1
                    { exit := exitCode ctx
                      out := printed quiet verbose ctx }

theorem main_exit (ossl : OpenSSL) (fingerprintFails : Bool)
    (faults : Nat → VerifyFaults) (fopen : Bytes → Except Bytes Bytes)
    (prog : Bytes) (options : List CliOption) (operands : List Bytes) :
    (main ossl fingerprintFails faults fopen prog options operands).exit =
      match readOptions options with
      | .error code => code
      | .ok settings =>
          match operands with
          | [] => 2
          | path :: _ =>
              verifierMain ossl fingerprintFails settings.opts faults
                (fopen path).toOption := by
  unfold main verifierMain
  cases readOptions options with
  | error code => rfl
  | ok settings =>
      dsimp only
      cases operands with
      | nil => split_ifs <;> rfl
      | cons path operands =>
          dsimp only
          split_ifs
          · rfl
          · rfl
          · cases verifierInit ossl fingerprintFails settings.opts with
            | none => rfl
            | some ctx =>
                cases fopen path with
                | error reason => rfl
                | ok file => rfl

theorem main_cases (ossl : OpenSSL) (fingerprintFails : Bool)
    (faults : Nat → VerifyFaults) (fopen : Bytes → Except Bytes Bytes)
    (prog : Bytes) (options : List CliOption) (operands : List Bytes) :
    let outcome := main ossl fingerprintFails faults fopen prog options operands
    (outcome.out = [] ∧ outcome.err ≠ [] ∧
      (outcome.exit = 2 ∨ readOptions options = .error outcome.exit)) ∨
    ∃ settings, ∃ ctx : VerifierCtx ossl, readOptions options = .ok settings ∧
      outcome = {
        exit := exitCode ctx
        out := printed settings.quiet settings.verbose ctx } := by
  have husage : usage prog ≠ [] := List.append_ne_nil_of_left_ne_nil
    (List.append_ne_nil_of_left_ne_nil (by decide +kernel) _) _
  intro outcome
  unfold outcome main
  cases hread : readOptions options with
  | error code => exact .inl ⟨rfl, husage, .inr rfl⟩
  | ok settings =>
      dsimp only
      split_ifs with htrust hcrl
      · refine .inl ⟨rfl, ?_, .inl rfl⟩
        exact List.append_ne_nil_of_right_ne_nil _ husage
      · exact .inl ⟨rfl, by decide +kernel, .inl rfl⟩
      · cases operands with
        | nil =>
            refine .inl ⟨rfl, ?_, .inl rfl⟩
            exact List.append_ne_nil_of_right_ne_nil _ husage
        | cons path operands =>
            cases verifierInit ossl fingerprintFails settings.opts with
            | none =>
                refine .inl ⟨rfl, ?_, .inl rfl⟩
                dsimp only
                decide +kernel
            | some ctx =>
                dsimp only
                cases fopen path with
                | error reason =>
                    refine .inl ⟨rfl, ?_, .inl rfl⟩
                    exact List.append_ne_nil_of_right_ne_nil _
                      (by decide +kernel)
                | ok file => exact .inr ⟨settings, _, rfl, rfl⟩

/-! ## The exit code in the report -/

def grade (out : Bytes) : Nat :=
  if ascii "PASS" <+: out then 0
  else if TellsMismatch out then 3
  else if TellsCertificate out then 4
  else 1

section Words

variable {word : Bytes}

theorem categoryWords_plain : ∀ word ∈ categoryWords,
    word ≠ [] ∧ 10 ∉ word ∧
      ∀ c ∈ word.head?, c ∉ ascii "  line : " ∧ ¬ isDigit c := by
  decide +kernel

theorem infix_lines_iff (hword : word ∈ categoryWords) (line rest : Bytes) :
    word <:+: line ++ 10 :: rest ↔ word <:+: line ∨ word <:+: rest := by
  obtain ⟨-, hplain, -⟩ := categoryWords_plain word hword
  constructor
  · intro h
    apply @infix_of_infix_gap _ word line [10] rest (by decide)
    · intro x hx
      rw [List.mem_singleton.mp hx]
      exact hplain
    · rwa [List.append_assoc]
  · rintro (h | h)
    · exact h.trans (List.prefix_append line _).isInfix
    · have hrest : rest <:+ line ++ 10 :: rest := ⟨line ++ [10], by simp⟩
      exact h.trans hrest.isInfix

theorem infix_errorText_iff (hword : word ∈ categoryWords)
    (e : VerifierError) : word <:+: errorText e ↔ word <:+: e.message := by
  obtain ⟨hne, -, hhead⟩ := categoryWords_plain word hword
  apply infix_append_iff_of_head hne
  intro c hc hmem
  obtain ⟨hplain, hdigit⟩ := hhead c hc
  have hletters : ∀ c ∈ ascii "  line " ++ ascii ": " ++ ascii "  ",
      c ∈ ascii "  line : " := by decide +kernel
  split_ifs at hmem
  · rcases List.mem_append.mp hmem with hmem | hmem
    · rcases List.mem_append.mp hmem with hmem | hmem
      · exact hplain (hletters c (by simp [hmem]))
      · exact hdigit (decimal_isDigit hmem)
    · exact hplain (hletters c (by simp [hmem]))
  · exact hplain (hletters c (by simp [hmem]))

theorem infix_errors_iff (hword : word ∈ categoryWords)
    (errors : List VerifierError) (rest : Bytes) :
    word <:+: (errors.flatMap fun e => errorText e ++ [10]) ++ rest ↔
      Records (word <:+: ·) errors ∨ word <:+: rest := by
  unfold Records
  induction errors with
  | nil => simp
  | cons e errors ih =>
      rw [List.flatMap_cons, List.append_assoc, List.append_assoc,
        List.singleton_append, infix_lines_iff hword, ih,
        infix_errorText_iff hword]
      simp [or_assoc]

theorem Unmarked.lines {line rest : Bytes} (h : Unmarked line)
    (h' : Unmarked rest) : Unmarked (line ++ 10 :: rest) := by
  rw [unmarked_iff] at h h' ⊢
  intro word hword hinfix
  rcases (infix_lines_iff hword line rest).mp hinfix with hline | hrest
  · exact h word hword hline
  · exact h' word hword hrest

theorem unmarked_details (ctx : VerifierCtx ossl) :
    Unmarked (details ctx) := by
  have htail : Unmarked (if 0 < reportedTail ctx then
      ascii "  Unsigned tail:    " ++ number (reportedTail ctx) ++
        ascii " messages\n" else []) := by
    split_ifs
    · exact unmarked_number (by decide +kernel) (by decide +kernel) _
    · decide +kernel
  unfold details
  rw [show ascii "\n" = [10] from rfl, List.append_assoc _ [10],
    List.singleton_append]
  apply Unmarked.lines _ htail
  apply unmarked_number_end
  apply unmarked_number _ (by decide +kernel)
  exact unmarked_number (by decide +kernel) (by decide +kernel) _

theorem infix_report_iff {ctx : VerifierCtx ossl} (hword : word ∈ categoryWords)
    (hfail : ¬ verifierPassed ctx = true) {rest : Bytes}
    (hrest : Unmarked rest) :
    word <:+: report ctx ++ rest ↔ Records (word <:+: ·) ctx.errors := by
  have hheader : Unmarked (ascii "FAIL: " ++ decimal ctx.errors.length ++
      ascii " error(s) detected") :=
    unmarked_decimal (by decide +kernel) (by decide +kernel) _
  rw [unmarked_iff] at hheader hrest
  unfold report
  rw [if_neg hfail, List.append_assoc, List.cons_append,
    infix_lines_iff hword, infix_errors_iff hword,
    or_iff_right (hheader word hword), or_iff_left (hrest word hword)]

end Words

theorem records_or {p q : Bytes → Prop} {errors : List VerifierError} :
    Records (fun message => p message ∨ q message) errors ↔
      Records p errors ∨ Records q errors := by
  unfold Records
  constructor
  · rintro ⟨e, he, h | h⟩
    · exact .inl ⟨e, he, h⟩
    · exact .inr ⟨e, he, h⟩
  · rintro (⟨e, he, h⟩ | ⟨e, he, h⟩)
    · exact ⟨e, he, .inl h⟩
    · exact ⟨e, he, .inr h⟩

theorem exitCode_eq_grade (verbose : Bool) (ctx : VerifierCtx ossl) :
    exitCode ctx = grade (printed false verbose ctx) := by
  have hrest : Unmarked (if verbose then details ctx else []) := by
    split_ifs
    · exact unmarked_details ctx
    · decide +kernel
  unfold printed
  rw [if_neg (by decide)]
  generalize (if verbose then details ctx else []) = rest at hrest
  by_cases hpass : verifierPassed ctx = true
  · have hprefix : ascii "PASS" <+: report ctx ++ rest := by
      unfold report
      rw [if_pos hpass]
      simp only [List.append_assoc]
      exact (show ascii "PASS" <+: ascii "PASS: " by decide +kernel).trans
        (List.prefix_append _ _)
    rw [exitCode, if_pos hpass, grade, if_pos hprefix]
  · have hprefix : ¬ ascii "PASS" <+: report ctx ++ rest := by
      unfold report
      rw [if_neg hpass]
      simp only [List.append_assoc]
      exact fun h => absurd h (by simp [ascii])
    have hmismatch := @infix_report_iff _ _ ctx
      (show ascii "fingerprint mismatch" ∈ categoryWords by decide +kernel)
      hpass _ hrest
    have hcert := @infix_report_iff _ _ ctx
      (show ascii "certificate" ∈ categoryWords by decide +kernel)
      hpass _ hrest
    have hchain := @infix_report_iff _ _ ctx
      (show ascii "chain validation" ∈ categoryWords by decide +kernel)
      hpass _ hrest
    have hcerts : TellsCertificate (report ctx ++ rest) ↔
        Records TellsCertificate ctx.errors := by
      unfold TellsCertificate
      rw [hcert, hchain, records_or]
    have hmismatches : TellsMismatch (report ctx ++ rest) ↔
        Records TellsMismatch ctx.errors := hmismatch
    rw [exitCode, if_neg hpass, grade, if_neg hprefix]
    by_cases hthree : Records TellsMismatch ctx.errors
    · rw [if_pos (hmismatches.mpr hthree), errorCode_of_mismatch hthree]
    · obtain ⟨hfour, hone⟩ := errorCode_of_not_mismatch hthree 1
      rw [if_neg (mt hmismatches.mp hthree)]
      by_cases hblamed : Records TellsCertificate ctx.errors
      · rw [if_pos (hcerts.mpr hblamed), hfour hblamed]
      · rw [if_neg (mt hcerts.mp hblamed), hone hblamed]

section Outcome

variable (ossl : OpenSSL) (fingerprintFails : Bool)
  (faults : Nat → VerifyFaults) (fopen : Bytes → Except Bytes Bytes)
  (prog : Bytes) (options : List CliOption) (operands : List Bytes)

/--
What the tool prints is either a message, with an exit code of its own, or a
report, from which the exit code of the verification can be read off.  The
exit code does not depend on the options for the printing.
-/
theorem report_tells_exit :
    let run := fun options =>
      main ossl fingerprintFails faults fopen prog options operands
    let outcome := run options
    (outcome.err ≠ [] → outcome.out = [] ∧
      (outcome.exit = 2 ∨ readOptions options = .error outcome.exit)) ∧
    (outcome.err = [] → if .quiet ∈ options then outcome.out = []
      else outcome.exit = grade outcome.out) ∧
    (run (options.filter fun option => ¬ option.IsPrinting)).exit =
      outcome.exit := by
  intro run outcome
  refine ⟨?_, ?_, ?_⟩
  · intro herr
    rcases main_cases ossl fingerprintFails faults fopen prog options operands
      with ⟨hout, -, hexit⟩ | ⟨settings, ctx, -, hreport⟩
    · exact ⟨hout, hexit⟩
    · apply absurd _ herr
      exact congrArg Outcome.err hreport
  · intro herr
    rcases main_cases ossl fingerprintFails faults fopen prog options operands
      with ⟨-, hne, -⟩ | ⟨settings, ctx, hread, hreport⟩
    · exact absurd herr hne
    · have hquiet := readOptions_quiet hread
      have hout : outcome.out = _ := congrArg Outcome.out hreport
      have hexit : outcome.exit = _ := congrArg Outcome.exit hreport
      rw [hout, hexit]
      split_ifs with hmem
      · rw [hquiet.mpr hmem]
        rfl
      · have hloud : settings.quiet = false := by
          rw [← Bool.not_eq_true, hquiet]
          exact hmem
        rw [hloud]
        exact exitCode_eq_grade settings.verbose ctx
  · have hopts := readOptions_filter options
    change (main _ _ _ _ _ _ _).exit = (main _ _ _ _ _ _ _).exit
    rw [main_exit, main_exit]
    cases hread : readOptions options with
    | error code =>
        rw [hread] at hopts
        cases hfilter : readOptions
            (options.filter fun option => ¬ option.IsPrinting) with
        | error code' =>
            rw [hfilter] at hopts
            cases hopts
            rfl
        | ok settings =>
            rw [hfilter] at hopts
            cases hopts
    | ok settings =>
        rw [hread] at hopts
        cases hfilter : readOptions
            (options.filter fun option => ¬ option.IsPrinting) with
        | error code =>
            rw [hfilter] at hopts
            cases hopts
        | ok settings' =>
            rw [hfilter] at hopts
            have hsame : settings'.opts = settings.opts := Except.ok.inj hopts
            dsimp only
            rw [hsame]

/-- The order of the options does not matter, unless two of them conflict. -/
theorem options_order {options' : List CliOption}
    (hperm : options.Perm options')
    (h : options.Pairwise fun option option' =>
      ¬ option.Conflicts option') :
    main ossl fingerprintFails faults fopen prog options operands =
      main ossl fingerprintFails faults fopen prog options' operands := by
  unfold main
  rw [readOptions_perm hperm h]

end Outcome

end MmHashChainSigs.Verify
