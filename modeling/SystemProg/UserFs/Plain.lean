import Mathlib.Order.Lattice.Nat
import SystemProg.Lib.Refines
import SystemProg.UserFs.Cursors
import SystemProg.UserFs.Flat
import SystemProg.UserFs.Leaks

set_option autoImplicit false

-- Files are byte arrays. A name leads to a file until it is deleted, a descriptor until it is
-- closed, and a file that neither leads to is gone. This is what the calls are for; how they find a
-- block, cache it or count references to a file is not seen here.

namespace SystemProg.UserFs

structure Answer where
  result : Int
  data : List Byte
  error : UfsErrorCode
deriving DecidableEq

@[ext] structure Plain extends Flat where
  named : Name → Option Nat
  -- the next file is a new one
  nextFile : Nat
  error : UfsErrorCode

namespace Plain

def initial : Plain where
  content := fun _ => none
  opening := fun _ => none
  named := fun _ => none
  nextFile := 0
  error := .noErr

def refuse (p : Plain) (code : UfsErrorCode) : Answer × Plain :=
  (⟨-1, [], code⟩, { p with error := code })

def accept (p : Plain) (result : Int) (data : List Byte) : Answer × Plain :=
  (⟨result, data, .noErr⟩, { p with error := .noErr })

def Needed (p : Plain) (f : Nat) : Prop :=
  (∃ name, p.named name = some f) ∨ ∃ fd o, p.opening fd = some o ∧ o.file = f

open Classical in
noncomputable def collect (p : Plain) (f : Nat) : Plain :=
  if p.Needed f then p else { p with content := Function.update p.content f none }

noncomputable def freeNumber (p : Plain) : Int :=
  (sInf {n : Nat | p.opening (n + 1) = none} : Nat) + 1

noncomputable def place (p : Plain) (f : Nat) (flags : Flags) : Answer × Plain :=
  accept { p with opening := Function.update p.opening p.freeNumber (some ⟨f, 0, flags⟩) }
    p.freeNumber []

def create (p : Plain) (name : Name) : Plain :=
  { p with
    content := Function.update p.content p.nextFile (some [])
    named := Function.update p.named name (some p.nextFile)
    nextFile := p.nextFile + 1 }

noncomputable def ufsOpen (p : Plain) (filename : Option Name) (flags : Flags) : Answer × Plain :=
  match filename with
  | none => p.refuse .noFile
  | some name =>
      match p.named name with
      | some f => p.place f (defaultFlags flags)
      | none =>
          if flags &&& ufsCreate ≠ 0 then
            (p.create name).place p.nextFile (defaultFlags flags)
          else p.refuse .noFile

noncomputable def ufsClose (p : Plain) (fd : Int) : Answer × Plain :=
  match p.opening fd with
  | none => p.refuse .noFile
  | some o =>
      accept ({ p with opening := Function.update p.opening fd none }.collect o.file) 0 []

noncomputable def ufsDelete (p : Plain) (filename : Option Name) : Answer × Plain :=
  match filename with
  | none => p.refuse .noFile
  | some name =>
      match p.named name with
      | none => p.refuse .noFile
      | some f => accept ({ p with named := Function.update p.named name none }.collect f) 0 []

def refusal (p : Plain) (fd : Int) (right : Flags) (size : Nat → Nat) : Option UfsErrorCode :=
  match p.opening fd with
  | none => some .noFile
  | some o =>
      if o.flags &&& right = 0 then some .noPermission
      else if size o.pos > maxFileSize then some .noMem
      else none

def ufsWrite (p : Plain) (fd : Int) (buf : List Byte) : Answer × Plain :=
  match p.refusal fd ufsWriteOnly (· + buf.length) with
  | some code => p.refuse code
  | none => accept { p with toFlat := (p.toFlat.write fd buf).2 } buf.length []

def ufsRead (p : Plain) (fd : Int) (size : Nat) : Answer × Plain :=
  match p.refusal fd ufsReadOnly (fun _ => 0) with
  | some code => p.refuse code
  | none =>
      let read := p.toFlat.read fd size
      accept { p with toFlat := read.2.2 } read.1 read.2.1

def ufsResize (p : Plain) (fd : Int) (newSize : Nat) : Answer × Plain :=
  match p.refusal fd ufsWriteOnly (fun _ => newSize) with
  | some code => p.refuse code
  | none => accept { p with toFlat := (p.toFlat.resize fd newSize).2 } 0 []

def ufsDestroy (p : Plain) : Answer × Plain :=
  accept { initial with nextFile := p.nextFile } 0 []

noncomputable def reply (p : Plain) : Operation → Answer × Plain
  | .call (.open filename flags) => p.ufsOpen filename flags
  | .call (.read fd size) => p.ufsRead fd size
  | .call (.write fd buf) => p.ufsWrite fd buf
  | .call (.resize fd newSize) => p.ufsResize fd newSize
  | .call (.close fd) => p.ufsClose fd
  | .call (.delete filename) => p.ufsDelete filename
  | .destroy _ => p.ufsDestroy

end Plain

def Fs.answer (fs : Fs) (result : Int) (data : List Byte) : Answer × Fs :=
  (⟨result, data, fs.ufsErrno⟩, fs)

def respond (fs : Fs) : Operation → Option (Answer × Fs)
  | .call (.read fd size) => (ufsRead fs fd size).map fun read => read.2.2.answer read.1 read.2.1
  | .call c => (call fs c).map fun called => called.2.answer called.1 []
  | .destroy order => (operate fs (.destroy order)).map fun after => after.answer 0 []

-- The blocks, the cursors and the counts are not seen.
def Fs.plain (fs : Fs) : Plain :=
  { fs.flat with
    named := fun name => (findFileByName fs (some name) fs.fileList).join
    nextFile := fs.nextFile
    error := fs.errorCode }

-- No null pointer is compared with a name, no resize cuts a file where a cached block begins and
-- its position stands, and the set of `ufs_destroy` lists its files.
def Operation.Proper (fs : Fs) : Operation → Prop
  | .call c => c ≠ .delete none ∧ SafeResize fs c
  | .destroy order => order.Perm (filesToDelete fs)

end SystemProg.UserFs
