/-
  DessPlay.Anidb.Record
  **RECORDING AniDB TRAFFIC WITHOUT ITS CREDENTIALS.**

  A request is `COMMAND key=value&key=value`.  The codec escapes an `&` in a value
  as `&amp;`, which still holds an `&`; the recorder cuts the encoded line at EVERY
  `&` and redacts the parts that start with `user=`, `pass=` or `s=`.  What follows
  an `&` inside a credential is then a part of its own, which nothing redacts.
-/
import DessPlay.Lib.Text
import DessPlay.Core.Types

namespace DessPlay.Anidb

open Text DessPlay.Core List

/-! ## §1. The request codec. -/

/-- `escape_value`: every `&` first, then every newline. -/
def escapeValue (value : List Char) : List Char :=
  (value.flatMap fun c => if c = '&' then "&amp;".toList else [c]).flatMap
    fun c => if c = '\n' then "<br />".toList else [c]

/-- `{k}={escape_value(v)}`. -/
def encodeParam (param : List Char × List Char) : List Char :=
  param.1 ++ '=' :: escapeValue param.2

/-- `COMMAND k=v&k=v`. -/
def encode (command : List Char) (params : List (List Char × List Char)) : List Char :=
  command ++ ' ' :: ['&'].intercalate (params.map encodeParam)

def hashText (hash : Ed2kHash) : List Char :=
  (List.range 32).map fun i => Nat.digitChar (hash / 16 ^ (31 - i) % 16)

def authParams (user pass tag : List Char) : List (List Char × List Char) :=
  [("user".toList, user), ("pass".toList, pass), ("protover".toList, "3".toList),
    ("client".toList, "dessplay".toList), ("clientver".toList, "1".toList),
    ("enc".toList, "UTF8".toList), ("tag".toList, tag)]

def auth (user pass tag : List Char) : List Char :=
  encode "AUTH".toList (authParams user pass tag)

def logoutParams (session tag : List Char) : List (List Char × List Char) :=
  [("s".toList, session), ("tag".toList, tag)]

def logout (session tag : List Char) : List Char :=
  encode "LOGOUT".toList (logoutParams session tag)

def fileByHashParams (size : Nat) (hash : Ed2kHash) (session tag : List Char) :
    List (List Char × List Char) :=
  [("size".toList, Nat.toDigits 10 size), ("ed2k".toList, hashText hash),
    ("fmask".toList, "4000000000".toList), ("amask".toList, "00A08000".toList),
    ("s".toList, session), ("tag".toList, tag)]

def fileByHash (size : Nat) (hash : Ed2kHash) (session tag : List Char) : List Char :=
  encode "FILE".toList (fileByHashParams size hash session tag)

def animeByIdParams (aid : AniDbSeriesId) (session tag : List Char) :
    List (List Char × List Char) :=
  [("aid".toList, Nat.toDigits 10 aid), ("amask".toList, "ACA08000000000".toList),
    ("s".toList, session), ("tag".toList, tag)]

def animeById (aid : AniDbSeriesId) (session tag : List Char) : List Char :=
  encode "ANIME".toList (animeByIdParams aid session tag)

variable {value key redacted command : List Char}

theorem amp_mem_escapeValue : '&' ∈ escapeValue value ↔ '&' ∈ value := by
  unfold escapeValue
  constructor
  · intro h
    obtain ⟨c, hc, hamp⟩ := mem_flatMap.mp h
    obtain ⟨d, hd, hcd⟩ := mem_flatMap.mp hc
    -- A newline's replacement has no `&`, so `c` itself is one, and so is `d`.
    have hcamp : c = '&' := by
      split at hamp
      · exact absurd hamp (by decide)
      · exact (mem_singleton.mp hamp).symm
    split at hcd
    next hdamp => exact hdamp ▸ hd
    · exact hcamp ▸ mem_singleton.mp hcd ▸ hd
  · intro h
    refine mem_flatMap.mpr ⟨'&', mem_flatMap.mpr ⟨'&', h, by decide⟩, by decide⟩

theorem count_encodeParam (key value : List Char) :
    (encodeParam (key, value)).count '&' = key.count '&' + (escapeValue value).count '&' := by
  have heq : ('=' == '&') = false := by decide
  show (key ++ '=' :: escapeValue value).count '&' = _
  rw [count_append, count_cons, heq]
  rfl

/-! ## §2. The sanitizer. -/

def redaction? (key : List Char) : Option (List Char) :=
  if key = "user".toList then some "USER".toList
  else if key = "pass".toList then some "REDACTED".toList
  else if key = "s".toList then some "SESSION".toList
  else none

def sanitizeParam (kv : List Char) : List Char :=
  match splitOnce '=' kv with
  | some (key, _) =>
    match redaction? key with
    | some redacted => key ++ '=' :: redacted
    | none => kv
  | none => kv

/-- `sanitize_request`. -/
def sanitizeRequest (request : List Char) : List Char :=
  match splitOnce ' ' request with
  | none => request
  | some (command, params) =>
    command ++ ' ' :: ['&'].intercalate ((params.splitOn '&').map sanitizeParam)

theorem redaction_no_amp (h : redaction? key = some redacted) : '&' ∉ key ∧ '&' ∉ redacted := by
  unfold redaction? at h
  split_ifs at h with huser hpass hs
  · exact Option.some.inj h ▸ huser ▸ (by decide)
  · exact Option.some.inj h ▸ hpass ▸ (by decide)
  · exact Option.some.inj h ▸ hs ▸ (by decide)

theorem sanitizeParam_no_amp (kv : List Char) (h : '&' ∉ kv) : '&' ∉ sanitizeParam kv := by
  unfold sanitizeParam
  split
  next key _ _ =>
    split
    next redacted hred =>
      obtain ⟨hkey, hredacted⟩ := redaction_no_amp hred
      simp [hkey, hredacted]
    · exact h
  · exact h

theorem sanitizeParam_encodeParam (hred : redaction? key = some redacted) (heq : '=' ∉ key)
    (hvalue : '&' ∉ value) :
    ((encodeParam (key, value)).splitOn '&').map sanitizeParam = [key ++ '=' :: redacted] := by
  have hparam : '&' ∉ encodeParam (key, value) := by
    simp [encodeParam, (redaction_no_amp hred).1, amp_mem_escapeValue, hvalue]
  rw [splitOn_eq_singleton hparam, map_singleton]
  show [sanitizeParam (key ++ '=' :: escapeValue value)] = _
  unfold sanitizeParam
  rw [splitOnce_append heq]
  simp only [hred]

variable {params : List (List Char × List Char)}

theorem sanitizeRequest_encode (hcommand : ' ' ∉ command) (hne : params ≠ []) :
    sanitizeRequest (encode command params) = command ++ ' ' :: ['&'].intercalate
      (params.flatMap fun param => ((encodeParam param).splitOn '&').map sanitizeParam) := by
  unfold sanitizeRequest encode
  rw [splitOnce_append hcommand]
  show command ++ ' ' :: _ = _
  rw [splitOn_intercalate_flatMap '&' (by simpa using hne), flatMap_map,
    map_flatMap]

theorem count_encode (command : List Char) (params : List (List Char × List Char)) :
    (encode command params).count '&' = command.count '&'
      + (params.map fun param => (encodeParam param).count '&').sum + (params.length - 1) := by
  have hspace : (' ' == '&') = false := by decide
  unfold encode
  rw [count_append, count_cons, count_intercalate, map_map, length_map, hspace]
  show _ + ((params.map fun param => (encodeParam param).count '&').sum + _ + 0) = _
  omega

theorem count_sanitizeRequest_encode (hcommand : ' ' ∉ command)
    (params : List (List Char × List Char)) :
    (sanitizeRequest (encode command params)).count '&' = (encode command params).count '&' := by
  unfold sanitizeRequest encode
  rw [splitOnce_append hcommand]
  show (command ++ ' ' :: _).count '&' = _
  rw [count_append, count_append, count_cons, count_cons,
    count_intercalate_map_splitOn sanitizeParam_no_amp]

/-! ## §3. What a recording shows of the secrets. -/

def blank (param : List Char × List Char) : List Char × List Char :=
  if (redaction? param.1).isSome then (param.1, []) else param

def secretValues (params : List (List Char × List Char)) : List (List Char) :=
  (params.filter fun param => (redaction? param.1).isSome).map Prod.snd

theorem forall_mem_secretValues :
    (∀ value ∈ secretValues params, '&' ∉ value) ↔
      ∀ param ∈ params, (redaction? param.1).isSome → '&' ∉ param.2 := by
  unfold secretValues
  rw [forall_mem_map]
  simp only [mem_filter, and_imp]

theorem count_blank_le (param : List Char × List Char) :
    (encodeParam (blank param)).count '&' ≤ (encodeParam param).count '&' := by
  unfold blank
  split
  · rw [count_encodeParam, ← Prod.mk.eta (p := param), count_encodeParam]
    exact Nat.add_le_add_left (Nat.zero_le _) _
  · exact le_refl _

theorem count_blank_eq {param : List Char × List Char} (hsecret : (redaction? param.1).isSome)
    (h : (encodeParam (blank param)).count '&' = (encodeParam param).count '&') :
    '&' ∉ param.2 := by
  rw [blank, if_pos hsecret] at h
  have hzero : (escapeValue param.2).count '&' = 0 := by
    rw [count_encodeParam, ← Prod.mk.eta (p := param), count_encodeParam] at h
    exact (add_left_cancel h).symm
  exact fun hmem => count_eq_zero.mp hzero (amp_mem_escapeValue.mpr hmem)

/-- **Any request**: the recorded text is the one of the request with its secrets left
empty iff no secret holds an `&`. -/
theorem sanitizeRequest_eq_blank_iff (hcommand : ' ' ∉ command)
    (params : List (List Char × List Char)) (hne : params ≠ [])
    (hkeys : (params.all fun param => '=' ∉ param.1) = true) :
    sanitizeRequest (encode command params) = sanitizeRequest (encode command (params.map blank))
      ↔ ∀ value ∈ secretValues params, '&' ∉ value := by
  have hkey : ∀ param ∈ params, '=' ∉ param.1 := fun param hparam =>
    of_decide_eq_true (all_eq_true.mp hkeys param hparam)
  rw [forall_mem_secretValues]
  constructor
  · intro h
    have hcount := congrArg (List.count '&') h
    rw [count_sanitizeRequest_encode hcommand, count_sanitizeRequest_encode hcommand] at hcount
    rw [count_encode, count_encode, map_map, length_map] at hcount
    have hsum : (params.map fun p => (encodeParam (blank p)).count '&').sum
        = (params.map fun p => (encodeParam p).count '&').sum := by
      have hfun : ((fun p => (encodeParam p).count '&') ∘ blank)
          = fun p => (encodeParam (blank p)).count '&' := rfl
      rw [hfun] at hcount
      omega
    intro param hparam hsecret
    exact count_blank_eq hsecret
      (eq_of_sum_map_eq (fun p _ => count_blank_le p) hsum param hparam)
  · intro h
    rw [sanitizeRequest_encode hcommand hne, sanitizeRequest_encode hcommand (by simpa using hne),
      flatMap_map]
    congr 3
    refine flatMap_congr fun param hparam => ?_
    -- An open parameter is untouched; a secret one shows only its key either way.
    cases hred : redaction? param.1 with
    | none => rw [blank, hred]; rfl
    | some redacted =>
      have hvalue := h param hparam (by rw [hred]; rfl)
      rw [blank, hred]
      show _ = ((encodeParam (param.1, [])).splitOn '&').map sanitizeParam
      rw [sanitizeParam_encodeParam hred (hkey param hparam) not_mem_nil]
      exact sanitizeParam_encodeParam hred (hkey param hparam) hvalue

/-- **Recordings and credentials**: what is recorded of a command is what is recorded
of it with empty credentials iff they hold no `&`. -/
theorem sanitized_hides_credentials_iff (user pass session tag : List Char) (size : Nat)
    (hash : Ed2kHash) (aid : AniDbSeriesId) :
    (sanitizeRequest (auth user pass tag) = sanitizeRequest (auth [] [] tag) ↔
        '&' ∉ user ∧ '&' ∉ pass)
      ∧ (sanitizeRequest (fileByHash size hash session tag)
          = sanitizeRequest (fileByHash size hash [] tag) ↔ '&' ∉ session)
      ∧ (sanitizeRequest (animeById aid session tag)
          = sanitizeRequest (animeById aid [] tag) ↔ '&' ∉ session)
      ∧ (sanitizeRequest (logout session tag) = sanitizeRequest (logout [] tag) ↔
          '&' ∉ session) := by
  -- Blanking the parameters of each command gives the command with empty credentials.
  refine ⟨?_, ?_, ?_, ?_⟩
  · refine (sanitizeRequest_eq_blank_iff (by decide) (authParams user pass tag)
      (cons_ne_nil _ _) rfl).trans ?_
    show (∀ value ∈ [user, pass], '&' ∉ value) ↔ _
    rw [forall_mem_cons, forall_mem_singleton]
  · refine (sanitizeRequest_eq_blank_iff (by decide) (fileByHashParams size hash session tag)
      (cons_ne_nil _ _) rfl).trans ?_
    exact forall_mem_singleton
  · refine (sanitizeRequest_eq_blank_iff (by decide) (animeByIdParams aid session tag)
      (cons_ne_nil _ _) rfl).trans ?_
    exact forall_mem_singleton
  · refine (sanitizeRequest_eq_blank_iff (by decide) (logoutParams session tag)
      (cons_ne_nil _ _) rfl).trans ?_
    exact forall_mem_singleton

theorem auth_leaks_password :
    sanitizeRequest (auth "u".toList "a&b".toList "t".toList)
        = "AUTH user=USER&pass=REDACTED&amp;b&protover=3&client=dessplay&clientver=1&enc=UTF8&tag=t".toList
      ∧ sanitizeRequest (auth "u".toList "a&b".toList "t".toList)
        ≠ sanitizeRequest (auth "u".toList "a&c".toList "t".toList) := by
  decide

end DessPlay.Anidb
