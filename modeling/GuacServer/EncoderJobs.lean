import GuacServer.EncoderParser
import GuacServer.StateRuns

/-!
# The jobs of the encoder service

Each of three drivers collects bytes in the accumulation buffer until a semicolon,
hands them to the parser and starts over: the job that follows a recording, the job
that reads a socket, and the function for callers that have the bytes already. What
each stores is logged with the index it is stored at, and a store outside the buffer
is modelled as if there were room. The job that follows a recording takes one of a
number of slots while it runs, which it gives up now and then.
-/

namespace GuacServer.EncoderJobs

open GuacServer.Parser EncoderParser

/-- The size of the accumulation buffer. -/
def sizeofData : ℕ := 32768

/-- The accumulation buffer, with all bytes received and the indices of all stores
so far. -/
structure Accumulation where
  ins : InsTransVideo
  received : List UInt8
  stores : List ℕ

namespace Accumulation

/-- A byte is stored at the offset, which moves on. -/
def put (b : UInt8) (buffer : Accumulation) : Accumulation :=
  { ins := { buffer.ins with data := buffer.ins.data++[b] }
    received := buffer.received++[b]
    stores := buffer.stores++[buffer.ins.data.length] }

/-- A zero byte is stored at the offset, which stays. -/
def terminate (buffer : Accumulation) : Accumulation :=
  { buffer with stores := buffer.stores++[buffer.ins.data.length] }

/-- The offset is set to zero. -/
def clear (buffer : Accumulation) : Accumulation :=
  { buffer with ins := { buffer.ins with data := [] } }

/-- The bytes are handed to the parser. -/
def parse (buffer : Accumulation) : Bool×Accumulation :=
  let result := insParserRead buffer.ins
  (result.ok,{ buffer with ins := result.ins })

/-- An offset beyond the buffer is set to zero. -/
def check (buffer : Accumulation) : Accumulation :=
  if sizeofData<buffer.ins.data.length then buffer.clear else buffer

end Accumulation

/-- A new accumulation buffer. -/
def emptyAccumulation : Accumulation := ⟨insTransVideoCreate,[],[]⟩

/-- What read() returns. -/
inductive ReadReturn
  | byte (b : UInt8)
  | endOfFile
  | again
  | failed

/-- A byte of a recording in job_loop_read_recodingfile, and whether the loop goes on. -/
def recordingByte (b : UInt8) (buffer : Accumulation) : Bool×Accumulation :=
  let buffer := buffer.put b
  if b=59 then
    let (ok,buffer) := buffer.parse
    if ok then (true,buffer.clear) else (false,buffer)
  else (true,buffer)

/-- The job that reads a socket: the return value of job_read_stream so far, and
whether job_loop_select has returned. -/
structure StreamJob where
  buffer : Accumulation
  rv : ℤ
  returned : Bool

/-- A byte in job_read_stream, and whether it was parsed. -/
def streamByte (b : UInt8) (buffer : Accumulation) : Bool×Accumulation :=
  let buffer := buffer.check.put b
  if b=59 then
    let (ok,buffer) := buffer.terminate.parse
    (ok,buffer.clear)
  else (true,buffer)

/-- A read in job_read_stream. As long as it returns one, job_loop_select calls it
again. -/
def stepStream (read : ReadReturn) (job : StreamJob) : Option StreamJob :=
  if job.returned then some job
  else
    match read with
    | .byte b =>
      let (ok,buffer) := streamByte b job.buffer
      some { job with buffer := buffer, rv := if ok then job.rv else -1 }
    | .again => some { job with rv := 1 }
    | .failed => some { job with rv := -1, returned := true }
    | .endOfFile => some { job with rv := 0, returned := true }

/-- The loop of ins_convert_video over the bytes of a call, with its return value. -/
def convertBytes : List UInt8→Accumulation→ℤ×Accumulation
  | [], buffer => (0,buffer)
  | b::bytes, buffer =>
    if sizeofData<buffer.ins.data.length then (-1,buffer.clear)
    else
      let buffer := buffer.put b
      convertBytes bytes (if b=59 then buffer.parse.2.clear else buffer)

/-- A call of ins_convert_video. -/
def stepConvert (buf : List UInt8) (buffer : Accumulation) : Option Accumulation :=
  some (convertBytes buf buffer).2

/-- Where a worker is in job_loop_read_recodingfile. -/
inductive JobPoint
  /-- Before the recording is opened. -/
  | start
  /-- In the first sem_wait. -/
  | waiting
  /-- At the top of the loop. -/
  | looping
  /-- In the sem_wait of the loop. -/
  | yielding
  /-- Before a read. -/
  | reading
  /-- Behind the loop. -/
  | leaving
  | returned (rv : ℤ)
  deriving DecidableEq

/-- A worker, with the numbers of its calls of sem_wait that have returned and of its
calls of sem_post. -/
structure Worker where
  point : JobPoint
  buffer : Accumulation
  schedFlag : Bool
  statusSemHold : Bool
  waits : ℕ
  posts : ℕ

/-- A worker on a new job. -/
def newWorker : Worker := ⟨.start,emptyAccumulation,false,false,0,0⟩

/-- What a worker does next. The order of the workers, the time, the recording and
the client are not its own. -/
inductive WorkerEvent
  | opened (ok : Bool)
  /-- sem_wait returns. -/
  | acquire
  /-- The time is looked at. -/
  | expired (yes : Bool)
  /-- A read returns, and job->terminate has a value. -/
  | read (result : ReadReturn) (terminate : Bool)
  /-- The code behind the loop. -/
  | leave

/-- sem_wait returns if the value of the semaphore is positive, which it decreases. -/
def Worker.acquire (semaphore : ℕ) (worker : Worker) (point : JobPoint) : Option (ℕ×Worker) :=
  if 0<semaphore then
    some (semaphore-1,{ worker with
      point := point
      schedFlag := false
      statusSemHold := true
      waits := worker.waits+1 })
  else none

/-- sem_post increases the value of the semaphore. -/
def Worker.post (semaphore : ℕ) (worker : Worker) (point : JobPoint) : ℕ×Worker :=
  (semaphore+1,{ worker with
    point := point
    statusSemHold := false
    posts := worker.posts+1 })

/-- The worker after a read. -/
def Worker.afterRead (worker : Worker) (result : ReadReturn) (terminate : Bool) : Worker :=
  match result with
  | .byte b =>
    let (goesOn,buffer) := recordingByte b worker.buffer
    { worker with buffer := buffer, point := if goesOn then .looping else .returned (-1) }
  | .endOfFile =>
    if terminate then { worker with point := .leaving }
    else { worker with schedFlag := true, point := .looping }
  | .again | .failed => { worker with point := .leaving }

/-- A step of job_loop_read_recodingfile, if the worker is where it can be taken. -/
def stepWorker (event : WorkerEvent) (semaphore : ℕ) (worker : Worker) : Option (ℕ×Worker) :=
  match event, worker.point with
  | .opened ok, .start =>
    some (semaphore,{ worker with point := if ok then .waiting else .returned (-1) })
  | .acquire, .waiting => worker.acquire semaphore .looping
  | .expired yes, .looping =>
    if worker.schedFlag ∨ yes then some (worker.post semaphore .yielding)
    else some (semaphore,{ worker with point := .reading })
  | .acquire, .yielding => worker.acquire semaphore .reading
  | .read result terminate, .reading => some (semaphore,worker.afterRead result terminate)
  | .leave, .leaving =>
    if worker.statusSemHold then some (worker.post semaphore (.returned 0))
    else some (semaphore,{ worker with point := .returned 0 })
  | _, _ => none

/-- The semaphore and the workers of the service. -/
structure Service where
  semaphore : ℕ
  workers : List Worker

/-- server_init, with the size of the window of threads. -/
def serverInit (threadWindowSize : ℕ) : Service := ⟨threadWindowSize,[]⟩

/-- A new worker starts, or one of the workers goes on. -/
inductive ServiceEvent
  | create
  | worker (i : ℕ) (event : WorkerEvent)

/-- A step of the service. A worker that cannot take its step stays where it is. -/
def stepService (event : ServiceEvent) (service : Service) : Option Service :=
  match event with
  | .create => some { service with workers := service.workers++[newWorker] }
  | .worker i event =>
    match service.workers[i]? with
    | none => some service
    | some worker =>
      match stepWorker event service.semaphore worker with
      | none => some service
      | some (semaphore,worker) => some ⟨semaphore,service.workers.set i worker⟩

end GuacServer.EncoderJobs
