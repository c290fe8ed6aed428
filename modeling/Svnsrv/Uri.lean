import Svnsrv.Lib.CText

/-!
# The repository URL

`SubversionUriCanonicalize` of SubversionHds.cc. `depth` counts the slashes that
were passed, at most five, and says which part a character belongs to.
-/

namespace Svnsrv.Uri

open CText
set_option autoImplicit false

structure SubversionURL where
  scheme : Bytes
  account : Bytes
  host : Bytes
  port : UInt32
  owner : Bytes
  repository : Bytes
  path : Bytes
  deriving DecidableEq, Repr

/-- A default-initialised record: the strings are empty, `port` holds whatever was in memory. -/
def SubversionURL.fresh (port : UInt32) : SubversionURL := ⟨[], [], [], port, [], [], []⟩

def slash : UInt8 := 47
def atSign : UInt8 := 64

/-- The local `str_port`. Nothing is ever appended to it. -/
def strPort : Bytes := []

/-- `switch (depth)`; none is the return with code 2. -/
def uriByte (depth : Nat) (u : SubversionURL) (c : UInt8) : Option SubversionURL :=
  match depth with
  | 0 => some (if c ≠ colon then { u with scheme := u.scheme ++ [c] } else u)
  | 1 => none
  | 2 =>
    if c = atSign then some { u with account := u.host, host := u.account }
    -- `domRefs` is a reference to `host`, so this empties the host
    else if c = colon then some { u with host := strPort }
    else some { u with host := u.host ++ [c] }
  | 3 => some { u with owner := u.owner ++ [c] }
  | 4 => some { u with repository := u.repository ++ [c] }
  | _ => some { u with path := u.path ++ [c] }

/-- The loop over the URL: whether it ran to the end, and the record. -/
def uriLoop : Nat → SubversionURL → Bytes → Bool × SubversionURL
  | _, u, [] => (true, u)
  | depth, u, c :: url =>
    if c = slash ∧ depth < 5 then uriLoop (depth + 1) u url
    else match uriByte depth u c with
      | none => (false, u)
      | some v => uriLoop depth v url

def defaultPort (scheme : Bytes) : UInt32 :=
  if scheme = ascii "svn" then 3690 else if scheme = ascii "svn+ssh" then 21 else 3690

/-- The result code and what `subversionURL` holds after the call. -/
def subversionUriCanonicalize (url : Bytes) (u : SubversionURL) : Nat × SubversionURL :=
  if url = [] then (1, u)
  else
    match uriLoop 0 { u with path := u.path ++ [slash] } url with
    | (false, v) => (2, v)
    | (true, v) =>
      if strPort = [] then (0, { v with port := defaultPort v.scheme })
      else (0, { v with port := UInt32.ofInt (strtol strPort) })

/-- Behind the fifth slash everything belongs to the path. -/
theorem uriLoop_path (u : SubversionURL) (t : Bytes) :
    uriLoop 5 u t = (true, { u with path := u.path ++ t }) := by
  induction t generalizing u with
  | nil => simp [uriLoop]
  | cons c t ih =>
    have hbyte : uriLoop 5 u (c :: t) = uriLoop 5 { u with path := u.path ++ [c] } t := by
      simp [uriLoop, uriByte]
    rw [hbyte, ih]
    simp

end Svnsrv.Uri
