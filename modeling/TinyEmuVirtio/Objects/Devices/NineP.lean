import TinyEmuVirtio.Objects.Queue

namespace Virtio

-- `FSQID`, `FSStatFS`, `FSStat` and `FSLock` of `fs.h`, with the field types the format strings
-- of `marshall` read them at.
structure FsQid where
  type : BitVec 8
  version : BitVec 32
  path : BitVec 64
  deriving Inhabited

structure FsStatFs where
  bsize : BitVec 32
  (blocks bfree bavail files ffree : BitVec 64)
  deriving Inhabited

structure FsStat where
  qid : FsQid
  (mode uid gid : BitVec 32)
  (nlink rdev size blksize blocks : BitVec 64)
  atimeSec : BitVec 64
  atimeNsec : BitVec 32
  mtimeSec : BitVec 64
  mtimeNsec : BitVec 32
  ctimeSec : BitVec 64
  ctimeNsec : BitVec 32
  deriving Inhabited

structure FsLock where
  type : BitVec 8
  flags : BitVec 32
  (start length : BitVec 64)
  procId : BitVec 32
  clientId : List (BitVec 8)
  deriving Inhabited

-- An `FSFile *` of the backend.
abbrev FsFile := Nat

abbrev CString := List (BitVec 8)

-- The backend `FSDevice`, by its answers to the `k`-th call: the return value and what it stores
-- through its pointer arguments. `eproto` and `enotsup` are `P9_EPROTO` and `P9_ENOTSUP` of
-- `fs.h`.
structure FsDevice where
  statfs : Nat → FsStatFs
  attach : Nat → BitVec 32 → CString → CString → Int × FsFile × FsQid
  walk : Nat → FsFile → List CString → Int × FsFile × List FsQid
  mkdir : Nat → FsFile → CString → BitVec 32 → BitVec 32 → Int × FsQid
  «open» : Nat → FsFile → BitVec 32 → Int × FsQid
  create : Nat → FsFile → CString → BitVec 32 → BitVec 32 → BitVec 32 → Int × FsQid
  stat : Nat → FsFile → Int × FsStat
  setattr : Nat → FsFile → BitVec 32 → BitVec 32 → BitVec 32 → BitVec 32 → BitVec 64 →
    BitVec 64 → BitVec 64 → BitVec 64 → BitVec 64 → Int
  readdir : Nat → FsFile → BitVec 64 → BitVec 32 → Int × List (BitVec 8)
  read : Nat → FsFile → BitVec 64 → BitVec 32 → Int × List (BitVec 8)
  write : Nat → FsFile → BitVec 64 → List (BitVec 8) → BitVec 32 → Int
  link : Nat → FsFile → FsFile → CString → Int
  symlink : Nat → FsFile → CString → CString → BitVec 32 → Int × FsQid
  mknod : Nat → FsFile → CString → BitVec 32 → BitVec 32 → BitVec 32 → BitVec 32 → Int × FsQid
  readlink : Nat → FsFile → Int × CString
  renameat : Nat → FsFile → CString → FsFile → CString → Int
  unlinkat : Nat → FsFile → CString → Int
  lock : Nat → FsFile → FsLock → Int
  getlock : Nat → FsFile → FsLock → Int × FsLock
  eproto : Int
  enotsup : Int

instance : Inhabited FsDevice :=
  ⟨{ statfs := default, attach := default, walk := default, mkdir := default, «open» := default,
     create := default, stat := default, setattr := fun _ _ _ _ _ _ _ _ _ _ _ => 0,
     readdir := default, read := default, write := default, link := default, symlink := default,
     mknod := fun _ _ _ _ _ _ _ => default, readlink := default, renameat := default, unlinkat := default,
     lock := default, getlock := default, eproto := 0, enotsup := 0 }⟩

-- `P9OpenInfo` without its device pointer.
structure P9OpenInfo where
  queueIdx : Fin maxQueue
  descIdx : BitVec 16
  tag : BitVec 16

-- The fields of `VIRTIO9PDevice` after `common`, with how many calls the backend has answered, the
-- `lopen` whose callback it still owes, and the files it has been handed by `fs_delete`, the
-- latest first.
structure NinePState where
  fs : FsDevice
  calls : Nat
  msize : BitVec 32
  fids : List (BitVec 32 × FsFile)
  reqInProgress : Bool
  outstanding : Option P9OpenInfo
  deleted : List FsFile

def NinePState.init (fs : FsDevice) : NinePState := ⟨fs, 0, 8192, [], false, none, []⟩

abbrev NineM := VirtioM NinePState

-- A call of the backend.
def fsCall {α : Type} (f : FsDevice → Nat → α) : NineM α := do
  let s1 ← getExt
  setExt { s1 with calls := s1.calls + 1 }
  return f s1.fs s1.calls

-- `fs_delete`, which returns nothing.
def fsDelete (fd : FsFile) : NineM Unit :=
  modifyExt fun s1 => { s1 with calls := s1.calls + 1, deleted := fd :: s1.deleted }

/-! The FID table -/

def fidFind (fids : List (BitVec 32 × FsFile)) (fid : BitVec 32) : Option FsFile :=
  (fids.find? (·.1 = fid)).map (·.2)

def fidDelete (fid : BitVec 32) : NineM Unit := do
  if let some fd := fidFind (← getExt).fids fid then
    fsDelete fd
    modifyExt fun s1 => { s1 with fids := s1.fids.eraseP (·.1 = fid) }

def fidSet (fid : BitVec 32) (fd : FsFile) : NineM Unit := do
  match fidFind (← getExt).fids fid with
  | some old =>
    fsDelete old
    modifyExt fun s1 => { s1 with fids := s1.fids.replace (fid, old) (fid, fd) }
  | none => modifyExt fun s1 => { s1 with fids := (fid, fd) :: s1.fids }

/-! Marshalling -/

-- An argument of `marshall` or a result of `unmarshall`, by its format character.
inductive P9Value where
  | b (v : BitVec 8)
  | h (v : BitVec 16)
  | w (v : BitVec 32)
  | d (v : BitVec 64)
  | s (str : CString)
  | q (qid : FsQid)

namespace P9Value

def size : P9Value → Nat
  | b _ => 1 | h _ => 2 | w _ => 4 | d _ => 8 | s str => 2 + str.length | q _ => 13

def bytes : P9Value → List (BitVec 8)
  | b v => [v]
  | h v => toLe v.toNat 2
  | w v => toLe v.toNat 4
  | d v => toLe v.toNat 8
  | s str => toLe str.length 2 ++ str
  | q qid => qid.type :: toLe qid.version.toNat 4 ++ toLe qid.path.toNat 8

def toW : P9Value → BitVec 32 | w v => v | _ => 0
def toH : P9Value → BitVec 16 | h v => v | _ => 0
def toB : P9Value → BitVec 8 | b v => v | _ => 0
def toD : P9Value → BitVec 64 | d v => v | _ => 0
def toS : P9Value → CString | s str => str | _ => []

-- The integer fields `unmarshall` reads: their size and how the bytes read make the value.
def ofField : Char → Option (BitVec 32 × (Nat → P9Value))
  | 'b' => some (1, fun v => b (BitVec.ofNat 8 v))
  | 'h' => some (2, fun v => h (BitVec.ofNat 16 v))
  | 'w' => some (4, fun v => w (BitVec.ofNat 32 v))
  | 'd' => some (8, fun v => d (BitVec.ofNat 64 v))
  | _ => none

-- `assert(len <= 65535)` of a string.
def tooLong : P9Value → Bool
  | s str => str.length > 65535
  | _ => false

end P9Value

-- `strlen` stops at the first zero byte.
def cStr (bs : List (BitVec 8)) : CString := bs.takeWhile (· ≠ 0)

-- `marshall` into a buffer of `maxLen` bytes; each `assert` aborts.
def marshall (maxLen : Nat) : List P9Value → Except Fault (List (BitVec 8))
  | [] => .ok []
  | v :: vs => do
    if v.size > maxLen ∨ v.tooLong then
      .error .abort
    return v.bytes ++ (← marshall (maxLen - v.size) vs)

section
variable (fuel : Nat) (q : Fin maxQueue) (descIdx : BitVec 16)

-- One field of `unmarshall`; `none` where the source returns -1. A string is kept as the
-- `char *` its users read, up to its first zero byte.
def unmarshallField (offset : BitVec 32) : Char → NineM (Option (P9Value × BitVec 32))
  | 's' => do
    let (r, buf) ← memcpyFromQueue fuel q descIdx offset 2
    if r ≠ 0 then return none
    let len := BitVec.ofNat 32 (fromLe buf)
    let (r, str) ← memcpyFromQueue fuel q descIdx (offset + 2) len
    if r ≠ 0 then return none
    return some (.s (cStr str), offset + 2 + len)
  | c => do
    let some (n, mk) := P9Value.ofField c | fail .abort
    let (r, buf) ← memcpyFromQueue fuel q descIdx offset n
    if r ≠ 0 then return none
    return some (mk (fromLe buf), offset + n)

def unmarshall : BitVec 32 → List Char → NineM (Option (List P9Value × BitVec 32))
  | offset, [] => return some ([], offset)
  | offset, c :: cs => do
    let some (v, offset) ← unmarshallField fuel q descIdx offset c | return none
    let some (vs, offset) ← unmarshall offset cs | return none
    return some (v :: vs, offset)

end

/-! Requests -/

-- How a request ends: the reply it sends, the labels `error` and `protocol_error` of the source
-- (with the error code), or an `lopen` left to its callback.
inductive P9Result where
  | reply (buf : List (BitVec 8))
  | error (err : Int)
  | pending

def virtio9pSendReply (fuel : Nat) (q : Fin maxQueue) (descIdx : BitVec 16) (id : BitVec 8)
    (tag : BitVec 16) (buf : List (BitVec 8)) : NineM Unit := do
  let len := BitVec.ofNat 32 (buf.length + 7)
  let buf1 := toLe len.toNat 4 ++ [id + 1] ++ toLe tag.toNat 2 ++ buf
  let _ ← memcpyToQueue fuel q descIdx 0 buf1 len
  virtioConsumeDesc q descIdx len

def virtio9pSendError (fuel : Nat) (q : Fin maxQueue) (descIdx : BitVec 16) (tag : BitVec 16)
    (err : Int) : NineM Unit := do
  let buf ← liftExcept (marshall 4 [.w (-BitVec.ofInt 32 err)])
  virtio9pSendReply fuel q descIdx 6 tag buf

def virtio9pFinish (fuel : Nat) (q : Fin maxQueue) (descIdx : BitVec 16) (id : BitVec 8)
    (tag : BitVec 16) : P9Result → NineM Unit
  | .reply buf => virtio9pSendReply fuel q descIdx id tag buf
  | .error err => virtio9pSendError fuel q descIdx tag err
  | .pending => pure ()

def reply (args : List P9Value) : NineM P9Result := do
  return .reply (← liftExcept (marshall 1024 args))

def protocolError : NineM P9Result := do
  return .error (-(← getExt).fs.eproto)

-- `if (err) goto error;` and its variants, then the reply.
def replyUnless (isErr : Bool) (err : Int) (args : List P9Value) : NineM P9Result :=
  if isErr then return .error err else reply args

-- `virtio_9p_open_reply`, for the reply it sends.
def virtio9pOpenReply (qid : FsQid) (err : Int) : NineM P9Result := do
  if err < 0 then return .error err
  let buf ← liftExcept (marshall 32 [.q qid, .w ((← getExt).msize - 24)])
  return .reply buf

section
variable (fuel : Nat) (q : Fin maxQueue) (descIdx : BitVec 16) (tag : BitVec 16)
  (offset : BitVec 32)

-- The cases of the `switch` of `virtio_9p_recv_request`, by operation, from the first byte after
-- the header.
def p9Statfs : NineM P9Result := do
  let st ← fsCall (·.statfs)
  reply [.w 0, .w st.bsize, .d st.blocks, .d st.bfree, .d st.bavail, .d st.files, .d st.ffree,
    .d 0, .w 256]

def p9Lopen : NineM P9Result := do
  let some (a, _) ← unmarshall fuel q descIdx offset "ww".toList | protocolError
  let some f := fidFind (← getExt).fids (a.getD 0 (.b 0)).toW | protocolError
  let (err, qid) ← fsCall (·.open · f (a.getD 1 (.b 0)).toW)
  if err ≤ 0 then virtio9pOpenReply qid err
  else
    modifyExt ({ · with reqInProgress := true, outstanding := some ⟨q, descIdx, tag⟩ })
    return .pending

def p9Lcreate : NineM P9Result := do
  let some (a, _) ← unmarshall fuel q descIdx offset "wswww".toList | protocolError
  let arg i := a.getD i (.b 0)
  let (err, qid) ← match fidFind (← getExt).fids (arg 0).toW with
    | none => pure (-(← getExt).fs.eproto, ⟨0, 0, 0⟩)
    | some f => fsCall (·.create · f (arg 1).toS (arg 2).toW (arg 3).toW (arg 4).toW)
  replyUnless (err ≠ 0) err [.q qid, .w ((← getExt).msize - 24)]

def p9Symlink : NineM P9Result := do
  let some (a, _) ← unmarshall fuel q descIdx offset "wssw".toList | protocolError
  let arg i := a.getD i (.b 0)
  let (err, qid) ← match fidFind (← getExt).fids (arg 0).toW with
    | none => pure (-(← getExt).fs.eproto, ⟨0, 0, 0⟩)
    | some f => fsCall (·.symlink · f (arg 1).toS (arg 2).toS (arg 3).toW)
  replyUnless (err ≠ 0) err [.q qid]

def p9Mknod : NineM P9Result := do
  let some (a, _) ← unmarshall fuel q descIdx offset "wswwww".toList | protocolError
  let arg i := a.getD i (.b 0)
  let (err, qid) ← match fidFind (← getExt).fids (arg 0).toW with
    | none => pure (-(← getExt).fs.eproto, ⟨0, 0, 0⟩)
    | some f => fsCall (·.mknod · f (arg 1).toS (arg 2).toW (arg 3).toW (arg 4).toW (arg 5).toW)
  replyUnless (err ≠ 0) err [.q qid]

def p9Readlink : NineM P9Result := do
  let some (a, _) ← unmarshall fuel q descIdx offset "w".toList | protocolError
  let (err, target) ← match fidFind (← getExt).fids (a.getD 0 (.b 0)).toW with
    | none => pure (-(← getExt).fs.eproto, [])
    | some f => fsCall (·.readlink · f)
  replyUnless (err ≠ 0) err [.s (cStr target)]

def p9Getattr : NineM P9Result := do
  let some (a, _) ← unmarshall fuel q descIdx offset "wd".toList | protocolError
  let some f := fidFind (← getExt).fids (a.getD 0 (.b 0)).toW | protocolError
  let (err, st) ← fsCall (·.stat · f)
  replyUnless (err ≠ 0) err
    [.d (a.getD 1 (.b 0)).toD, .q st.qid, .w st.mode, .w st.uid, .w st.gid, .d st.nlink,
      .d st.rdev, .d st.size, .d st.blksize, .d st.blocks, .d st.atimeSec,
      .d (st.atimeNsec.setWidth 64), .d st.mtimeSec, .d (st.mtimeNsec.setWidth 64), .d st.ctimeSec,
      .d (st.ctimeNsec.setWidth 64), .d 0, .d 0, .d 0, .d 0]

def p9Setattr : NineM P9Result := do
  let some (a, _) ← unmarshall fuel q descIdx offset "wwwwwddddd".toList | protocolError
  let arg i := a.getD i (.b 0)
  let some f := fidFind (← getExt).fids (arg 0).toW | protocolError
  let err ← fsCall (·.setattr · f (arg 1).toW (arg 2).toW (arg 3).toW (arg 4).toW (arg 5).toD
    (arg 6).toD (arg 7).toD (arg 8).toD (arg 9).toD)
  replyUnless (err ≠ 0) err []

-- `readdir` and `read`: the reply is the count `n` and the `n` bytes the backend stored after it in
-- a buffer of `count + 4` bytes.
def p9ReadInto (call : FsDevice → Nat → FsFile → BitVec 64 → BitVec 32 → Int × List (BitVec 8)) :
    NineM P9Result := do
  let some (a, _) ← unmarshall fuel q descIdx offset "wdw".toList | protocolError
  let arg i := a.getD i (.b 0)
  let some f := fidFind (← getExt).fids (arg 0).toW | protocolError
  let count := (arg 2).toW
  let (n, data) ← fsCall (call · · f (arg 1).toD count)
  if n < 0 then return .error n
  if n > count.toNat ∨ n.toNat + 4 > (count + 4).toNat then fail .undefined
  let buf := fillBuf (List.replicate (count + 4).toNat 0) (toLe n.toNat 4 ++ data)
  return .reply (buf.take (n.toNat + 4))

def p9Fsync : NineM P9Result := do
  let some _ ← unmarshall fuel q descIdx offset "w".toList | protocolError
  reply []

def p9Lock : NineM P9Result := do
  let some (a, _) ← unmarshall fuel q descIdx offset "wbwddws".toList | protocolError
  let arg i := a.getD i (.b 0)
  let lock : FsLock := ⟨(arg 1).toB, (arg 2).toW, (arg 3).toD, (arg 4).toD, (arg 5).toW, (arg 6).toS⟩
  let err ← match fidFind (← getExt).fids (arg 0).toW with
    | none => pure (-(← getExt).fs.eproto)
    | some f => fsCall (·.lock · f lock)
  replyUnless (err < 0) err [.b (BitVec.ofInt 8 err)]

-- `getlock` hands `marshall` pointers where its format string asks for integers and a string.
def p9Getlock : NineM P9Result := do
  let some (a, _) ← unmarshall fuel q descIdx offset "wbddws".toList | protocolError
  let arg i := a.getD i (.b 0)
  let lock : FsLock := ⟨(arg 1).toB, 0, (arg 2).toD, (arg 3).toD, (arg 4).toW, (arg 5).toS⟩
  let err ← match fidFind (← getExt).fids (arg 0).toW with
    | none => pure (-(← getExt).fs.eproto)
    | some f => pure (← fsCall (·.getlock · f lock)).1
  if err < 0 then return .error err
  fail .undefined

def p9Link : NineM P9Result := do
  let some (a, _) ← unmarshall fuel q descIdx offset "wws".toList | protocolError
  let arg i := a.getD i (.b 0)
  let fids := (← getExt).fids
  let err ← match fidFind fids (arg 0).toW, fidFind fids (arg 1).toW with
    | some df, some f => fsCall (·.link · df f (arg 2).toS)
    | _, _ => pure (-(← getExt).fs.eproto)
  replyUnless (err ≠ 0) err []

def p9Mkdir : NineM P9Result := do
  let some (a, _) ← unmarshall fuel q descIdx offset "wsww".toList | protocolError
  let arg i := a.getD i (.b 0)
  let some f := fidFind (← getExt).fids (arg 0).toW | protocolError
  let (err, qid) ← fsCall (·.mkdir · f (arg 1).toS (arg 2).toW (arg 3).toW)
  replyUnless (err ≠ 0) err [.q qid]

def p9Renameat : NineM P9Result := do
  let some (a, _) ← unmarshall fuel q descIdx offset "wsws".toList | protocolError
  let arg i := a.getD i (.b 0)
  let fids := (← getExt).fids
  let err ← match fidFind fids (arg 0).toW, fidFind fids (arg 2).toW with
    | some f, some newF => fsCall (·.renameat · f (arg 1).toS newF (arg 3).toS)
    | _, _ => pure (-(← getExt).fs.eproto)
  replyUnless (err ≠ 0) err []

def p9Unlinkat : NineM P9Result := do
  let some (a, _) ← unmarshall fuel q descIdx offset "wsw".toList | protocolError
  let arg i := a.getD i (.b 0)
  let err ← match fidFind (← getExt).fids (arg 0).toW with
    | none => pure (-(← getExt).fs.eproto)
    | some f => fsCall (·.unlinkat · f (arg 1).toS)
  replyUnless (err ≠ 0) err []

def p9Version : NineM P9Result := do
  let some (a, _) ← unmarshall fuel q descIdx offset "ws".toList | protocolError
  modifyExt ({ · with msize := (a.getD 0 (.b 0)).toW })
  reply [.w (a.getD 0 (.b 0)).toW, .s (cBytes "9P2000.L")]

def p9Attach : NineM P9Result := do
  let some (a, _) ← unmarshall fuel q descIdx offset "wwssw".toList | protocolError
  let arg i := a.getD i (.b 0)
  let (err, f, qid) ← fsCall (·.attach · (arg 4).toW (arg 2).toS (arg 3).toS)
  if err ≠ 0 then return .error err
  fidSet (arg 0).toW f
  reply [.q qid]

def p9Flush : NineM P9Result := do
  let some _ ← unmarshall fuel q descIdx offset "h".toList | protocolError
  reply []

-- The names of `walk`, one `unmarshall` each.
def p9Walk.names : Nat → BitVec 32 → NineM (Option (List CString))
  | 0, _ => return some []
  | n + 1, offset => do
    let some (a, offset) ← unmarshall fuel q descIdx offset ['s'] | return none
    let some names ← names n offset | return none
    return some ((a.getD 0 (.b 0)).toS :: names)

def p9Walk : NineM P9Result := do
  let some (a, offset) ← unmarshall fuel q descIdx offset "wwh".toList | protocolError
  let arg i := a.getD i (.b 0)
  let some f := fidFind (← getExt).fids (arg 0).toW | protocolError
  let nwname := (arg 2).toH.toNat
  let some names ← p9Walk.names fuel q descIdx nwname offset
    | return .error (-(← getExt).fs.eproto)
  let (err, f, qids) ← fsCall (·.walk · f names)
  if err < 0 then return .error err
  if err > nwname then fail .undefined
  let qids := (List.range err.toNat).map fun i => P9Value.q (qids.getD i ⟨0, 0, 0⟩)
  let buf ← liftExcept (marshall 1024 (.h (BitVec.ofInt 16 err) :: qids))
  fidSet (arg 1).toW f
  return .reply buf

def p9Write : NineM P9Result := do
  let some (a, offset) ← unmarshall fuel q descIdx offset "wdw".toList | protocolError
  let arg i := a.getD i (.b 0)
  let some f := fidFind (← getExt).fids (arg 0).toW | protocolError
  let count := (arg 2).toW
  let (r, buf1) ← memcpyFromQueue fuel q descIdx offset count
  if r ≠ 0 then protocolError
  else
    let n ← fsCall (·.write · f (arg 1).toD buf1 count)
    replyUnless (n < 0) n [.w (BitVec.ofInt 32 n)]

def p9Clunk : NineM P9Result := do
  let some (a, _) ← unmarshall fuel q descIdx offset "w".toList | protocolError
  fidDelete (a.getD 0 (.b 0)).toW
  reply []

def p9Op (id : BitVec 8) : NineM P9Result :=
  match id.toNat with
  | 8 => p9Statfs
  | 12 => p9Lopen fuel q descIdx tag offset
  | 14 => p9Lcreate fuel q descIdx offset
  | 16 => p9Symlink fuel q descIdx offset
  | 18 => p9Mknod fuel q descIdx offset
  | 22 => p9Readlink fuel q descIdx offset
  | 24 => p9Getattr fuel q descIdx offset
  | 26 => p9Setattr fuel q descIdx offset
  | 30 => do return .error (-(← getExt).fs.enotsup)
  | 40 => p9ReadInto fuel q descIdx offset (·.readdir)
  | 50 => p9Fsync fuel q descIdx offset
  | 52 => p9Lock fuel q descIdx offset
  | 54 => p9Getlock fuel q descIdx offset
  | 70 => p9Link fuel q descIdx offset
  | 72 => p9Mkdir fuel q descIdx offset
  | 74 => p9Renameat fuel q descIdx offset
  | 76 => p9Unlinkat fuel q descIdx offset
  | 100 => p9Version fuel q descIdx offset
  | 104 => p9Attach fuel q descIdx offset
  | 108 => p9Flush fuel q descIdx offset
  | 110 => p9Walk fuel q descIdx offset
  | 116 => p9ReadInto fuel q descIdx offset (·.read)
  | 118 => p9Write fuel q descIdx offset
  | 120 => p9Clunk fuel q descIdx offset
  | _ => protocolError

end

def virtio9pRecvRequest : DeviceRecv NinePState := fun fuel q descIdx _ _ => do
  if q.val ≠ 0 then return 0
  if (← getExt).reqInProgress then return -1
  logAccess (.take q descIdx)
  let (r, hdr) ← memcpyFromQueue fuel q descIdx 0 7
  if r ≠ 0 then
    virtio9pFinish fuel q descIdx 0 0 (← protocolError)
    return 0
  let id := hdr.getD 4 0
  let tag := BitVec.ofNat 16 (fromLe ((hdr.drop 5).take 2))
  virtio9pFinish fuel q descIdx id tag (← p9Op fuel q descIdx tag 7 id)
  return 0

-- `virtio_9p_open_cb`: the backend answers the outstanding `lopen`.
def virtio9pOpenCb (fuel : Nat) (qid : FsQid) (err : Int) : NineM Unit := do
  let some oi := (← getExt).outstanding | fail .undefined
  modifyExt ({ · with outstanding := none })
  virtio9pFinish fuel oi.queueIdx oi.descIdx 12 oi.tag (← virtio9pOpenReply qid err)
  modifyExt ({ · with reqInProgress := false })
  queueNotify virtio9pRecvRequest fuel oi.queueIdx

-- `virtio_9p_init`. A mount tag longer than 254 bytes is copied past the end of `config_space`.
def virtio9pInit (mountTag : CString) : Except Fault VirtioDevice :=
  let tag := cStr mountTag
  let len := BitVec.ofNat 32 tag.length
  let s := virtioInit 9 (2 + len)
  if 2 + tag.length > maxConfigSpaceSize then .error .undefined
  else .ok { s with
    deviceFeatures := virtioFVersion1 ||| 1
    configSpace := putBytes s.configSpace 0 (toLe len.toNat 2 ++ tag) }

end Virtio
