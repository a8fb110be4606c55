import BifrostSocket.ArgumentParsers
import BifrostSocket.OperatorProtocol

/-!
# Which argument names the config file

`resolve_config_path` scans the same arguments that the operator's `argparse` parser has
accepted. `lower` stands for `str.lower`.
-/

namespace BifrostSocket.ConfigPaths
open OperatorProtocol ArgumentParsers

section Resolution

/-- The parser of `run_ib_operator`. -/
def operatorOptions : OptionTable :=
  [("-h", .help), ("--help", .help), ("--prod", .storeTrue), ("--dev", .storeTrue),
    ("--env", .store ["dev", "prod"]),
    ("--log-level", .store ["DEBUG", "INFO", "WARNING", "ERROR"])]

def validEnvs : List String := ["dev", "prod"]

/-- What the scan has found; the positional with its index. -/
structure Scan where
  envFromFlag : Option String := none
  positional : Option (ℕ × String) := none
  deriving DecidableEq

variable (lower : String → String)

def envOf (v : String) : String :=
  let v := strip (lower v)
  if v ∈ validEnvs then v else "dev"

/-- An argument that is not `--env` or `-e` with a value after it. -/
def scanOne (i : ℕ) (s : Scan) (a : String) : Scan :=
  if startsWith a "--env=" then
    { s with envFromFlag := some (envOf lower ((partitionEq a).2.getD "")) }
  else if a = "--prod" then { s with envFromFlag := some "prod" }
  else if a = "--dev" then { s with envFromFlag := some "dev" }
  else if startsWith a "--" = false ∧ s.positional = none then
    { s with positional := some (i, a) }
  else s

def scanArgs : ℕ → Scan → List String → Scan
  | _, s, [] => s
  | i, s, [a] => scanOne lower i s a
  | i, s, a :: v :: rest =>
    if a = "--env" ∨ a = "-e" then
      scanArgs (i + 2) { s with envFromFlag := some (envOf lower v) } rest
    else scanArgs (i + 1) (scanOne lower i s a) (v :: rest)

/-- The environment variables, and which files there are. -/
structure ConfigEnvironment where
  bifrostConfig : Option String := none
  bifrostEnv : Option String := none
  candidateExists : String → Bool
  legacyExists : Bool

/-- The file that is chosen: that of `BIFROST_CONFIG`, that of a positional argument,
`config.{env}.yaml`, `config.yaml`, or the example. -/
inductive ConfigChoice where
  | configured (path : String)
  | positional (i : ℕ) (path : String)
  | candidate (env : String)
  | legacy
  | sample
  deriving DecidableEq

def ConfigEnvironment.defaultEnv (env : ConfigEnvironment) : String :=
  let e := env.bifrostEnv.getD "dev"
  if e = "" then "dev" else e

def resolveConfigPath (env : ConfigEnvironment) (argv : List String) : ConfigChoice :=
  let configured := strip (env.bifrostConfig.getD "")
  if configured ≠ "" then .configured configured
  else
    let s := scanArgs lower 0 {} argv
    match s.positional.filter fun p => p.2 ≠ "" with
    | some (i, path) => .positional i path
    | none =>
      let e := envOf lower (s.envFromFlag.getD env.defaultEnv)
      if env.candidateExists e then .candidate e
      else if env.legacyExists then .legacy
      else .sample

end Resolution

section Scans

variable {lower : String → String} {i j : ℕ} {s : Scan} {a t v : String} {rest argv : List String}
  {p : ℕ × String}

/-- The path of a positional is the first argument that the scan took for one, unless it is
empty. -/
theorem resolveConfigPath_positional_iff {env : ConfigEnvironment} {path : String}
    (h : strip (env.bifrostConfig.getD "") = "") :
    resolveConfigPath lower env argv = .positional i path ↔
      (scanArgs lower 0 {} argv).positional = some (i, path) ∧ path ≠ "" := by
  unfold resolveConfigPath
  dsimp only
  rw [if_neg (not_not.mpr h)]
  cases hpos : (scanArgs lower 0 {} argv).positional.filter fun p => p.2 ≠ "" with
  | some p =>
    obtain ⟨j, q⟩ := p
    obtain ⟨hp, hne⟩ := Option.filter_eq_some_iff.mp hpos
    rw [hp]
    constructor
    · intro heq
      cases heq
      exact ⟨rfl, of_decide_eq_true hne⟩
    · rintro ⟨heq, -⟩
      cases heq
      rfl
  | none =>
    constructor
    · intro heq
      dsimp only at heq
      split at heq
      · cases heq
      split at heq
      · cases heq
      · cases heq
    · rintro ⟨hp, hne⟩
      rw [hp, Option.filter_some, if_pos (decide_eq_true hne)] at hpos
      cases hpos

theorem scanOne_of_dashes (h : startsWith a "--" = true) :
    (scanOne lower i s a).positional = s.positional := by
  unfold scanOne
  split
  · rfl
  split
  · rfl
  split
  · rfl
  rw [if_neg (by simp [h])]

theorem scanOne_of_positional (h : s.positional = some p) :
    (scanOne lower i s a).positional = some p := by
  unfold scanOne
  split
  · exact h
  split
  · exact h
  split
  · exact h
  rw [if_neg (by simp [h])]
  exact h

theorem scanOne_takes (h : startsWith a "--" = false) (hs : s.positional = none) :
    (scanOne lower i s a).positional = some (i, a) := by
  have hne : ∀ b : String, startsWith b "--" = true → a ≠ b := by
    rintro b hb rfl
    rw [h] at hb
    cases hb
  have henv : ¬ startsWith a "--env=" = true := by
    intro henv
    rw [startsWith_iff] at henv
    have hdashes : startsWith a "--" = true :=
      startsWith_iff.mpr (List.IsPrefix.trans (by decide) henv)
    rw [h] at hdashes
    cases hdashes
  unfold scanOne
  rw [if_neg henv, if_neg (hne _ (by decide)), if_neg (hne _ (by decide)), if_pos ⟨h, hs⟩]

theorem scanArgs_cons (henv : a ≠ "--env") (he : a ≠ "-e") :
    scanArgs lower i s (a :: rest) = scanArgs lower (i + 1) (scanOne lower i s a) rest := by
  cases rest with
  | nil => rfl
  | cons v rest => rw [scanArgs, if_neg (not_or.mpr ⟨henv, he⟩)]

theorem scanArgs_of_positional (h : s.positional = some p) :
    (scanArgs lower i s argv).positional = some p := by
  fun_induction scanArgs lower i s argv with
  | case1 => exact h
  | case2 => exact scanOne_of_positional h
  | case3 _ _ _ _ _ _ ih => exact ih h
  | case4 _ _ _ _ _ _ ih => exact ih (scanOne_of_positional h)

theorem scanArgs_index (hs : s.positional = none)
    (h : (scanArgs lower i s argv).positional = some (j, t)) : i ≤ j := by
  have hone : ∀ i s a, s.positional = none → (scanOne lower i s a).positional = some (j, t) →
      i = j := by
    intro i s a hs h
    cases hdashes : startsWith a "--" with
    | true =>
      rw [scanOne_of_dashes hdashes, hs] at h
      cases h
    | false =>
      rw [scanOne_takes hdashes hs] at h
      cases h
      rfl
  fun_induction scanArgs lower i s argv with
  | case1 =>
    rw [hs] at h
    cases h
  | case2 => exact (hone _ _ _ hs h).le
  | case3 i s a v rest _ ih =>
    have := ih hs h
    omega
  | case4 i s a v rest _ ih =>
    cases hpos : (scanOne lower i s a).positional with
    | none =>
      have := ih hpos h
      omega
    | some p =>
      rw [scanArgs_of_positional hpos] at h
      rw [h] at hpos
      exact (hone _ _ _ hs hpos).le

end Scans

section Agreement

variable {lower : String → String} {i : ℕ} {s : Scan} {a : String} {rest argv : List String}
  {l : List (String × Mark)} {config : Option (ℕ × String)} {name : String} {action : OptionAction}
  {explicit : Option String}

/-- A path that the scan can take. -/
def Readable (t : String) : Prop := t ≠ "" ∧ startsWith t "--" = false

/-- Up to the config argument, only `--env` written in full has its value as an argument of its
own; and the config argument can be read. -/
def ConfigFirst : List String → Prop
  | [] => True
  | a :: rest =>
    if a = "--" then ∀ t ∈ rest, Readable t
    else match parseOptional operatorOptions a with
      | .argument => Readable a
      | .option _ (.store _) none =>
        match rest with
        | [] => True
        | _ :: rest => a = "--env" ∧ ConfigFirst rest
      | .option .. | .unknown | .ambiguous => ConfigFirst rest

theorem configFirst_dashes : ConfigFirst ("--" :: rest) ↔ ∀ t ∈ rest, Readable t := by
  unfold ConfigFirst
  rw [if_pos rfl]

theorem configFirst_argument (hdashes : a ≠ "--")
    (h : parseOptional operatorOptions a = .argument) : ConfigFirst (a :: rest) ↔ Readable a := by
  unfold ConfigFirst
  rw [if_neg hdashes, h]

/-- An option without a value, or with its value in the same argument. -/
theorem configFirst_flag (hdashes : a ≠ "--")
    (h : parseOptional operatorOptions a = .option name action explicit) (hhelp : action ≠ .help)
    (hflag : action = .storeTrue ∨ explicit.isSome) :
    ConfigFirst (a :: rest) ↔ ConfigFirst rest := by
  conv_lhs => unfold ConfigFirst
  rw [if_neg hdashes, h]
  cases action with
  | help => exact absurd rfl hhelp
  | storeTrue => exact Iff.rfl
  | store choices => cases explicit with
    | none => simp at hflag
    | some v => exact Iff.rfl

theorem configFirst_separate {choices : List String} {v : String} (hdashes : a ≠ "--")
    (h : parseOptional operatorOptions a = .option name (.store choices) none) :
    ConfigFirst (a :: v :: rest) ↔ a = "--env" ∧ ConfigFirst rest := by
  conv_lhs => unfold ConfigFirst
  rw [if_neg hdashes, h]

theorem dashes_of_option (h : parseOptional operatorOptions a = .option name action explicit)
    (hhelp : action ≠ .help) : startsWith a "--" = true := by
  have hlong : ∀ o ∈ operatorOptions, o.2 ≠ .help → startsWith o.1 "--" = true := by
    decide
  obtain ⟨hmem, hdashes⟩ := parseOptional_option h
  exact hdashes (hlong _ hmem hhelp)

theorem parseOptional_env :
    parseOptional operatorOptions "--env" = .option "--env" (.store ["dev", "prod"]) none := by
  decide

/-- No choice of an option looks like an option. -/
theorem choice_takes {v : String}
    (h : parseOptional operatorOptions a = .option name action explicit)
    (hv : v ∈ action.choices) : v ≠ "" ∧ v ≠ "-e" ∧ startsWith v "--" = false := by
  have hall : ∀ o ∈ operatorOptions, ∀ v ∈ o.2.choices,
      v ≠ "" ∧ v ≠ "-e" ∧ startsWith v "--" = false := by
    decide
  exact hall _ (parseOptional_option h).1 v hv

theorem ne_of_dashes {b : String} (h : startsWith a "--" = true) (hb : startsWith b "--" = false) :
    a ≠ b := by
  rintro rfl
  rw [hb] at h
  cases h

theorem ne_env_of_flag (h : parseOptional operatorOptions a = .option name action explicit)
    (hflag : action = .storeTrue ∨ explicit.isSome) : a ≠ "--env" := by
  rintro rfl
  rw [parseOptional_env] at h
  cases h
  simp at hflag

theorem ne_env_of_argument (h : parseOptional operatorOptions a = .argument) :
    a ≠ "--env" ∧ a ≠ "-e" := by
  constructor
  · rintro rfl
    rw [parseOptional_env] at h
    cases h
  · rintro rfl
    revert h
    decide

theorem scan_agrees_here {t : String} (hs : s.positional = none) :
    (∀ j u, (scanArgs lower (i + 1) (scanOne lower i s t) rest).positional = some (j, u) ∧ u ≠ "" ↔
      some (i, t) = some (j, u)) ↔ Readable t := by
  rw [Readable]
  cases hdashes : startsWith t "--" with
  | true =>
    have hs' : (scanOne lower i s t).positional = none := (scanOne_of_dashes hdashes).trans hs
    refine iff_of_false (fun hall => ?_) (by simp)
    have hle := scanArgs_index hs' ((hall i t).mpr rfl).1
    omega
  | false =>
    rw [scanArgs_of_positional (scanOne_takes hdashes hs)]
    constructor
    · intro hall
      exact ⟨((hall i t).mpr rfl).2, rfl⟩
    · rintro ⟨hne, -⟩ j u
      constructor
      · exact And.left
      · rintro heq
        cases heq
        exact ⟨rfl, hne⟩

/-- Where the scan has taken an argument before those that the parser has left. -/
theorem scan_disagrees {v : String} {j k : ℕ} {l : List (String × Mark)} {s : Scan} (hv : v ≠ "")
    (hs : s.positional = some (k, v)) (hk : k < j) (hparse : parseLoop j none l = some config) :
    ¬ ∀ j t, (scanArgs lower i s rest).positional = some (j, t) ∧ t ≠ "" ↔
      config = some (j, t) := by
  intro hall
  have hconfig := (hall k v).mp ⟨scanArgs_of_positional hs, hv⟩
  rw [hconfig] at hparse
  have hle := parseLoop_index hparse
  omega

theorem scan_agrees_dashes (hs : s.positional = none)
    (hparse : parseLoop i none (("--", .dashes) :: rest.map fun a => (a, .argument)) =
      some config) :
    (∀ j t, (scanArgs lower i s ("--" :: rest)).positional = some (j, t) ∧ t ≠ "" ↔
      config = some (j, t)) ↔ ConfigFirst ("--" :: rest) := by
  have hs' : (scanOne lower i s "--").positional = none :=
    (scanOne_of_dashes (by decide)).trans hs
  rw [configFirst_dashes, scanArgs_cons (by decide) (by decide)]
  rcases parseLoop_cons hparse with ⟨hm, -⟩ | ⟨-, hlast⟩ | ⟨_, _, hm, -⟩ | ⟨_, _, _, hm, -⟩
  · cases hm
  · rcases hlast with ⟨hnil, rfl⟩ | ⟨t, hone, rfl⟩
    · obtain rfl := List.map_eq_nil_iff.mp hnil
      simp [scanArgs, hs']
    · obtain ⟨u, rfl, hu⟩ := List.map_eq_singleton_iff.mp hone
      cases hu
      rw [List.forall_mem_singleton]
      exact @scan_agrees_here lower (i + 1) _ [] t hs'
  · cases hm
  · cases hm

/-- The value of an option that the scan does not know is taken for the path. -/
theorem scanArgs_choice {v : String} (hs : s.positional = none) (hdash : startsWith a "--" = true)
    (henv : a ≠ "--env") (he : v ≠ "-e") (hplain : startsWith v "--" = false) :
    ∃ s', scanArgs lower i s (a :: v :: rest) = scanArgs lower (i + 2) s' rest ∧
      s'.positional = some (i + 1, v) := by
  have hv : v ≠ "--env" := (ne_of_dashes (by decide) hplain).symm
  have hs' : (scanOne lower i s a).positional = none := (scanOne_of_dashes hdash).trans hs
  rw [scanArgs_cons henv (ne_of_dashes hdash (by decide)), scanArgs_cons hv he]
  exact ⟨_, rfl, scanOne_takes hplain hs'⟩

/-- What the scan takes and what the parser binds, where nothing has been taken or bound. -/
theorem scan_agrees_iff (hl : marked operatorOptions argv = some l)
    (hparse : parseLoop i none l = some config) (hs : s.positional = none) :
    (∀ j t, (scanArgs lower i s argv).positional = some (j, t) ∧ t ≠ "" ↔ config = some (j, t)) ↔
      ConfigFirst argv := by
  induction hn : argv.length using Nat.strong_induction_on generalizing argv l i s with
  | _ n ih =>
    cases argv with
    | nil =>
      cases hl
      cases hparse
      simp [scanArgs, hs, ConfigFirst]
    | cons a rest =>
      rcases marked_cons hl with ⟨rfl, rfl⟩ | ⟨hdashes, m, l', rfl, hm, hl'⟩
      · exact scan_agrees_dashes hs hparse
      · rcases parseLoop_cons hparse with ⟨rfl, rfl⟩ | ⟨rfl, -⟩ |
          ⟨action, explicit, rfl, hhelp, hflag, hrest⟩ | ⟨choices, v, l'', rfl, rfl, hv, hrest⟩
        · have hclass := Classified.mark_argument hm
          obtain ⟨henv, he⟩ := ne_env_of_argument hclass
          rw [configFirst_argument hdashes hclass, scanArgs_cons henv he]
          exact scan_agrees_here hs
        · cases hclass : parseOptional operatorOptions a with
          | argument | option | unknown | ambiguous =>
            rw [hclass] at hm
            cases hm
        · obtain ⟨name, hclass⟩ := Classified.mark_option hm
          have hdash := dashes_of_option hclass hhelp
          have hs' : (scanOne lower i s a).positional = none :=
            (scanOne_of_dashes hdash).trans hs
          have hless : rest.length < n := by
            rw [← hn]
            exact Nat.lt_succ_self _
          rw [configFirst_flag hdashes hclass hhelp hflag,
            scanArgs_cons (ne_env_of_flag hclass hflag) (ne_of_dashes hdash (by decide))]
          exact ih rest.length hless hl' hrest hs' rfl
        · obtain ⟨name, hclass⟩ := Classified.mark_option hm
          have hdash := dashes_of_option hclass (by simp)
          obtain ⟨hne, he, hplain⟩ := choice_takes hclass hv
          cases rest with
          | nil => cases hl'
          | cons v' rest =>
            rcases marked_cons hl' with ⟨-, hmark⟩ | ⟨-, m, l, hmark, -, hl''⟩
            · cases hmark
            · cases hmark
              rw [configFirst_separate hdashes hclass]
              by_cases henv : a = "--env"
              · subst henv
                have hless : rest.length < n := by
                  rw [← hn, List.length_cons, List.length_cons]
                  omega
                rw [scanArgs, if_pos (.inl rfl), and_iff_right rfl]
                exact ih rest.length hless hl'' hrest (by exact hs) rfl
              · obtain ⟨s', hscan, hs'⟩ :=
                  @scanArgs_choice lower i s a rest v hs hdash henv he hplain
                rw [hscan]
                refine iff_of_false ?_ fun h => henv h.1
                exact scan_disagrees hne hs' (Nat.lt_succ_self _) hrest

/-- For arguments that the parser accepts, `resolve_config_path` takes the argument that the
parser binds to `config`, and none if it binds none, if and only if no value of an option comes
before it as an argument of its own (that of `--env` apart) and it can be read. -/
theorem config_parsers_agree_iff (lower : String → String) (env : ConfigEnvironment)
    (argv : List String) (config : Option (ℕ × String))
    (hunset : strip (env.bifrostConfig.getD "") = "")
    (haccepts : parseArgs operatorOptions argv = some config) :
    (∀ i path, resolveConfigPath lower env argv = .positional i path ↔ config = some (i, path)) ↔
      ConfigFirst argv := by
  obtain ⟨l, hl, hparse⟩ := Option.bind_eq_some_iff.mp haccepts
  simp only [resolveConfigPath_positional_iff hunset]
  exact scan_agrees_iff hl hparse rfl

theorem config_parsers_agree_iff_config_first :
    let env : ConfigEnvironment := { candidateExists := fun _ => true, legacyExists := false }
    (∀ i path, resolveConfigPath id env ["config/config.prod.yaml", "--log-level", "DEBUG"] =
        .positional i path ↔ some (0, "config/config.prod.yaml") = some (i, path)) ↔
      ConfigFirst ["config/config.prod.yaml", "--log-level", "DEBUG"] :=
  config_parsers_agree_iff id _ _ _ (by decide) (by decide)

/-- The documented `--env dev --log-level DEBUG` is accepted without a config argument, and the
level is taken for the path of the config file. -/
theorem log_level_taken_for_config :
    let env : ConfigEnvironment := { candidateExists := fun _ => true, legacyExists := false }
    let argv := ["--env", "dev", "--log-level", "DEBUG"]
    parseArgs operatorOptions argv = some none ∧
      ¬ ∀ i path, resolveConfigPath id env argv = .positional i path ↔
        (none : Option (ℕ × String)) = some (i, path) := by
  refine ⟨by decide, fun hall => ?_⟩
  have htaken := (hall 3 "DEBUG").mp (by decide)
  cases htaken

end Agreement

end BifrostSocket.ConfigPaths
