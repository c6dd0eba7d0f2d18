import Flux.Copy.World

/-! The resume decision: how much of the partial an earlier run left may be kept. -/

namespace Flux.Copy

open Base Wal

structure FileState where
  begin : FileBegin
  digests : AList fun _ : UInt64 => Digest

structure Gate where
  len : ℕ
  mtime : Option (Int64 × UInt32)
  identity : Bytes

inductive Start where
  | fresh
  | resume (offset : ℕ)
  deriving DecidableEq, Repr

inductive Discard where
  | sourceChanged (what : String)
  | partialMissing
  | mismatchAt (offset : ℕ)
  | partialShorter (kept : ℕ)
  | unreadable (why : String)
  deriving DecidableEq, Repr

structure Verdict where
  start : Start
  carry : Bytes
  discard : Option Discard
  proven : List Digest

def Verdict.fresh (discard : Option Discard) : Verdict := ⟨.fresh, [], discard, []⟩

inductive DecideFail where
  | beat (e : FsError)
  | source (e : FsError)

def readSource (n : ℕ) : M DecideFail Bytes := do
  match (← get).files.source.readFull n with
  | .error e => throw (.source (.fromIo e))
  | .ok (bs, r) =>
    setFiles fun f => { f with source := r }
    return bs

def feed {ε : Type} (bs : Bytes) : M ε Unit := setFiles fun f => { f with hasher := f.hasher.map (· ++ bs) }

def startAt (pos : ℕ) : Start := if pos = 0 then .fresh else .resume pos

def Verdict.kept (pos : ℕ) (shorter : Bool) (proven : List Digest) : Verdict :=
  ⟨startAt pos, [], if shorter then some (.partialShorter pos) else none, proven⟩

def Verdict.mismatch (start : ℕ) (carry : Bytes) (proven : List Digest) : Verdict :=
  ⟨startAt start, carry, some (.mismatchAt start), proven⟩

def hashesTo (blake3 : Bytes → Digest) (digest : Digest) (len : ℕ) (chunk : Bytes) : Bool :=
  chunk.length = len ∧ blake3 chunk = digest

def decideLoop (blake3 : Bytes → Digest) (digests : AList fun _ : UInt64 => Digest) (len partialLen : ℕ) :
    ℕ → ℕ → Input → ℕ → Bool → M DecideFail Verdict
  | 0, _, _, pos, shorter => pure (.kept pos shorter [])
  | n + 1, k, p, pos, shorter =>
    match digests.lookup (UInt64.ofNat k) with
    | none => pure (.kept pos false [])
    | some recorded =>
      let start := k * chunkSize
      if start ≥ len then pure (.kept pos false [])
      else
        let chunk := min (len - start) chunkSize
        if partialLen < start + chunk then pure (.kept pos true [])
        else do
          beat.mapFailure .beat
          let src ← readSource chunk
          match p.readFull chunk with
          | .error _ => pure (.mismatch start src [])
          | .ok (part, p') =>
            if hashesTo blake3 recorded chunk src ∧ hashesTo blake3 recorded chunk part then do
              feed src
              decideLoop blake3 digests len partialLen n (k + 1) p' (start + chunk) shorter
            else pure (.mismatch start src [])

def decide (blake3 : Bytes → Digest) (state : FileState) (gate : Gate) (partialLen : Option ℕ)
    (part : Option Input) : M DecideFail Verdict :=
  if state.begin.sourceLen.toNat ≠ gate.len then pure (.fresh (some (.sourceChanged "length")))
  else if state.begin.sourceMtime ≠ gate.mtime then pure (.fresh (some (.sourceChanged "modified time")))
  else if state.begin.sourceIdentity ≠ gate.identity then pure (.fresh (some (.sourceChanged "identity")))
  else match partialLen, part with
    | some partialLen, some part =>
      match state.digests.keys.max? with
      | none => pure (.fresh none)
      | some highest =>
        let want := (highest + 1).toNat
        let have_ := divCeil partialLen chunkSize
        decideLoop blake3 state.digests gate.len partialLen (min want have_) 0 part 0 (have_ < want)
    | _, _ => pure (.fresh (some .partialMissing))

def decideFullLoop (blake3 : Bytes → Digest) (sourceLen partialLen : ℕ) :
    ℕ → ℕ → Input → ℕ → List Digest → M DecideFail Verdict
  | 0, _, _, pos, proven => pure (.kept pos false proven)
  | n + 1, k, p, pos, proven =>
    let start := k * chunkSize
    let chunk := min (sourceLen - start) chunkSize
    if partialLen < start + chunk then pure (.kept pos true proven)
    else do
      beat.mapFailure .beat
      let src ← readSource chunk
      match p.readFull chunk with
      | .error _ => pure (.mismatch start src proven)
      | .ok (part, p') =>
        if src.length = chunk ∧ hashesTo blake3 (blake3 src) chunk part then do
          feed src
          decideFullLoop blake3 sourceLen partialLen n (k + 1) p' (start + chunk) (proven ++ [blake3 src])
        else pure (.mismatch start src proven)

def decideFull (blake3 : Bytes → Digest) (sourceLen partialLen : ℕ) (part : Input) : M DecideFail Verdict :=
  decideFullLoop blake3 sourceLen partialLen (divCeil sourceLen chunkSize) 0 part 0 []

end Flux.Copy
