import MetricServer.Base.OrderedMap
import MetricServer.Http.Request

/-! `HttpResponse`, the metric database, and `httpErrorCheck`, which turns a parsed
request into the bytes of its response. One call of `update` sees a snapshot of
what the compiler, the thread and the machine report. -/

namespace MetricServer.Http

open Base

/-! ### Responses -/

structure HttpResponse where
  _msg : Bytes

namespace HttpResponse

def new : HttpResponse := ⟨[]⟩

/-- A field name is followed by `" : "`; without one the value stands alone. -/
def addHeaderField (rep : HttpResponse) (field value : Bytes) : HttpResponse :=
  ⟨rep._msg ++ (if field ≠ [] then field ++ ascii " : " else []) ++ value ++ ascii "\r\n"⟩

def addBody (rep : HttpResponse) (body : Bytes) : HttpResponse :=
  ⟨rep._msg ++ ascii "\r\n" ++ body⟩

def prepareHttpResponse (rep : HttpResponse) : Bytes := rep._msg

end HttpResponse

/-! ### The database -/

/-- `struct rusage`, the fields published. -/
structure Rusage where
  ru_maxrss : ℤ
  ru_minflt : ℤ
  ru_majflt : ℤ
  ru_inblock : ℤ
  ru_oublock : ℤ
  ru_nvcsw : ℤ
  ru_nivcsw : ℤ

/-- `struct sysinfo`, the fields published. -/
structure Sysinfo where
  totalram : ℕ
  freeram : ℕ

/-- What one call of `MetricDatabase::update` reads. A call of `getrusage` or
`sysinfo` that fails gives nothing. -/
structure Snapshot where
  methodQueueSize : ℤ
  clientSessions : ℕ
  numUsableCompilationThreads : ℤ
  numCompThreadsActive : ℤ
  freePhysicalMemory : ℕ
  numClearedCaches : ℤ
  isFunctional : Bool
  cpuUsage : ℤ
  avgCpuUsage : ℤ
  vmCpuUsage : ℤ
  rusage : Option Rusage
  sysinfo : Option Sysinfo

structure MetricDatabase where
  _mdb : OrderedMap Bytes Bytes

namespace MetricDatabase

def new : MetricDatabase := ⟨.empty⟩

def findMetric (db : MetricDatabase) (name : Bytes) : Bytes := (db._mdb.find name).getD []

def setMetric (db : MetricDatabase) (name value : Bytes) : MetricDatabase :=
  if (db._mdb.find name).isSome then ⟨db._mdb.assign name value⟩ else ⟨db._mdb.insert name value⟩

def prepareAllMetricsBody (db : MetricDatabase) : Bytes :=
  db._mdb.entries.flatMap fun e => e.1 ++ ascii " " ++ e.2 ++ ascii "\n"

def update (db : MetricDatabase) (s : Snapshot) : MetricDatabase :=
  let db := db.setMetric (ascii "compilationQueueSize") (decimal s.methodQueueSize)
  let db := db.setMetric (ascii "numberOfClients") (decimal s.clientSessions)
  let db := db.setMetric (ascii "totalNumberOfCompilationThreads")
    (decimal s.numUsableCompilationThreads)
  let db := db.setMetric (ascii "totalNumberOfActiveThreads") (decimal s.numCompThreadsActive)
  let db := db.setMetric (ascii "physicalMemoryFreeInMB") (decimal (s.freePhysicalMemory >>> 20))
  let db :=
    if 0 < s.numClearedCaches then
      db.setMetric (ascii "numberOfClearedCaches") (decimal s.numClearedCaches)
    else db
  let db :=
    if s.isFunctional then
      let db := db.setMetric (ascii "percentCpuLoad") (decimal s.cpuUsage)
      let db := db.setMetric (ascii "percentAverageCpuLoad") (decimal s.avgCpuUsage)
      db.setMetric (ascii "percentJVMCpuLoad") (decimal s.vmCpuUsage)
    else db
  let db :=
    match s.rusage with
    | none => db
    | some r =>
      let db := db.setMetric (ascii "metricServerMaxPeakMemInKB") (decimal r.ru_maxrss)
      let db := db.setMetric (ascii "metricServerNumPageFaultNotIO") (decimal r.ru_minflt)
      let db := db.setMetric (ascii "metricServerNumPageFaultByIO") (decimal r.ru_majflt)
      let db := db.setMetric (ascii "metricServerNumInput") (decimal r.ru_inblock)
      let db := db.setMetric (ascii "metricServerNumOutput") (decimal r.ru_oublock)
      let db := db.setMetric (ascii "metricServerNumVolCS") (decimal r.ru_nvcsw)
      db.setMetric (ascii "metricServerNumInVolCS") (decimal r.ru_nivcsw)
  match s.sysinfo with
  | none => db
  | some i =>
    let db := db.setMetric (ascii "machineTotalUsageMemInB") (decimal i.totalram)
    db.setMetric (ascii "machineTotalFreeMemInB") (decimal i.freeram)

end MetricDatabase

/-! ### From request to response -/

/-- `metric.find(text) != std::string::npos` for a text of the source, whose
embedded terminator is not part of it. -/
def contains (metric : Bytes) (text : String) : Bool := (strstr metric (ascii text)).isSome

def httpErrorCheck (req : HttpRequest) (db : MetricDatabase) : Bytes :=
  let rep := HttpResponse.new
  let metric := req.getMetric
  if req.getType ≠ .httpGet then
    let rep := rep.addHeaderField [] (ascii "HTTP/1.1 400 Bad Request")
    let rep := rep.addBody []
    rep.prepareHttpResponse
  else if (¬ contains metric "/metrics" ∧ ¬ contains metric "%2Fmetrics") ∧
      (¬ contains metric "/liveness" ∧ ¬ contains metric "%2Fliveness") then
    let rep := rep.addHeaderField [] (ascii "HTTP/1.1 404 Not Found")
    let rep := rep.addBody []
    rep.prepareHttpResponse
  else
    let rep := rep.addHeaderField [] (ascii "HTTP/1.1 200 OK")
    let rep := rep.addHeaderField (ascii "Content-Type")
      (ascii "text/plain; version=0.0.4; charset=utf-8")
    if contains metric "/metrics" ∨ contains metric "%2Fmetrics" then
      let rep := rep.addBody db.prepareAllMetricsBody
      rep.prepareHttpResponse
    else
      let rep := rep.addBody []
      rep.prepareHttpResponse

end MetricServer.Http
