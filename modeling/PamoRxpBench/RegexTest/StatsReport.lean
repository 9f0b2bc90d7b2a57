import PamoRxpBench.Library.Text
import PamoRxpBench.RegexTest.StatsDump

/-!
# `regex-test`: the text of the final report

The lines that `app_stats_dump` prints behind its three loops: for the log, and with `explib_out`
the results that `autotest` looks for.
-/

namespace PamoRxpBench
namespace RegexTest

open Text (decimal)

/-- A line that is printed: for the log, or `RESULT-<field> <value>`. -/
inductive ReportLine
  | log (text : Text)
  | result (field : Text) (value : UInt64)
deriving DecidableEq

/-- The line without its line feed. -/
def ReportLine.text : ReportLine → Text
  | .log text => text
  | .result field value => "RESULT-".toList ++ field ++ ' ' :: decimal value.toNat

/-- `%lu`. -/
def lu (n : UInt64) : Text := decimal n.toNat

/-- `%d` of a number of 32 bits. -/
def d32 (n : UInt32) : Text :=
  if n.toNat < 2 ^ 31 then decimal n.toNat else '-' :: decimal (2 ^ 32 - n.toNat)

/-! ## The regex engine -/

/-- The end of the name of a result. -/
def RgxMetric.suffix : RgxMetric → Text
  | .enqBrstCnt => "_enq_brst_cnt".toList
  | .enqBrstPktsCnt => "_enq_brst_pkts_cnt".toList
  | .deqBrstCnt => "_deq_brst_cnt".toList
  | .deqBrstPktsCnt => "_deq_brst_pkts_cnt".toList
  | .patternsMatched => "_patterns_matched".toList
  | .deqRttTtlUs => "_deq_rtt_ttl_us".toList
  | .deqAvgRttUs => "_deq_avg_rtt_us".toList
  | .deqRttTtlCycles => "_deq_rtt_ttl_cycles".toList
  | .deqAvgRttCycles => "_deq_avg_rtt_cycles".toList

/-- `rgx_bs<burst_size>_<metric>`. -/
def RgxColumn.field (c : RgxColumn) : Text := "rgx_bs".toList ++ decimal c.bs ++ c.metric.suffix

/-- The log line of a bucket. -/
def burstSizeLog (s : RegexStatsBurst) : Text :=
  "Burst size ".toList ++ d32 s.burstSize
    ++ ": enq_burst_cnt ".toList ++ lu s.enqBurstCnt
    ++ " enq_burst_pkts_cnt ".toList ++ lu s.enqBurstPktsCnt
    ++ " deq_burst_cnt ".toList ++ lu s.deqBurstCnt
    ++ " deq_burst_pkt_cnt ".toList ++ lu s.deqBurstPktCnt
    ++ " ttl_matches ".toList ++ lu s.matchesTotal
    -- the two strings of the format are joined without a blank
    ++ "deq_RTT_total_us ".toList ++ lu s.deqRTTTotalUs
    ++ " avg RTT in us ".toList ++ lu (average s.deqRTTTotalUs s.deqBurstPktCnt)
    ++ " deq_RTT_total_cycles ".toList ++ lu s.deqRTTTotalCycles
    ++ " avg RTT in cycles ".toList ++ lu (average s.deqRTTTotalCycles s.deqBurstPktCnt)

/-- The results of a bucket, behind their line of the log. -/
def bucketLines (s : RegexStatsBurst) : List ReportLine :=
  .log ("burstsize= ".toList ++ decimal s.burstSize.toNat) ::
    (bucketResults s).map fun r => .result r.1.field r.2

/-- `if (g_app_args.rgx_enabled)`. -/
def rgxLines (args : AppArgs) (buckets : List RegexStatsBurst) : List ReportLine :=
  if args.rgxEnabled then
    .log "Aggregated REGEX dev stats".toList :: (buckets.map fun b => .log (burstSizeLog b))
      ++ if args.explibOut then buckets.flatMap bucketLines else []
  else []

/-! ## Hyperscan -/

/-- The log line of Hyperscan. -/
def hsLog (s : HsStats) : Text :=
  "total scans: ".toList ++ lu s.totalScans
    ++ " total_matched_patterns: ".toList ++ lu s.totalMatches
    ++ " total scans us: ".toList ++ lu s.totalScansUs
    ++ " avg scan time in us: ".toList ++ lu (average s.totalScansUs s.totalScans)
    ++ " total scan cycles: ".toList ++ lu s.totalScansCycles
    ++ " avg scan cycles: ".toList ++ lu (average s.totalScansCycles s.totalScans)

/-- The results of Hyperscan. -/
def hsResults (s : HsStats) : List (Text × UInt64) :=
  [("hs_total_scans".toList, s.totalScans),
   ("hs_total_patterns_matched".toList, s.totalMatches),
   ("hs_total_scans_us".toList, s.totalScansUs),
   ("hs_avg_scan_time_us".toList, average s.totalScansUs s.totalScans),
   ("hs_total_scans_cycles".toList, s.totalScansCycles),
   ("hs_avg_scan_time_cycles".toList, average s.totalScansCycles s.totalScans)]

/-- `if (g_app_args.hs_enabled)`. -/
def hsLines (args : AppArgs) (s : HsStats) : List ReportLine :=
  if args.hsEnabled then
    .log "Aggregated HS dev stats".toList :: .log (hsLog s) ::
      if args.explibOut then (hsResults s).map fun r => .result r.1 r.2 else []
  else []

/-! ## The lcores -/

/-- The results of the lcores. -/
def lcoreResults (s : LcoreStats) : List (Text × UInt64) :=
  [("app_useful_cycles".toList, s.usefulCycles), ("app_wasted_cycles".toList, s.wastedCycles)]

/-- The end of the report. -/
def lcoreLines (args : AppArgs) (s : LcoreStats) : List ReportLine :=
  .log "Aggregated lcore stats".toList ::
    .log ("useful cycles: ".toList ++ lu s.usefulCycles
      ++ " wasted cycles: ".toList ++ lu s.wastedCycles) ::
    if args.explibOut then (lcoreResults s).map fun r => .result r.1 r.2 else []

/-- What `app_stats_dump` prints. -/
def reportLines (args : AppArgs) (report : Printed) : List ReportLine :=
  rgxLines args report.buckets ++ hsLines args report.hsStats ++ lcoreLines args report.lcoreStats

/-- A result of a report. -/
def ReportLine.result? : ReportLine → Option (Text × UInt64)
  | .log _ => none
  | .result field value => some (field, value)

/-- The results of the report, in the order in which they are printed. -/
def reportResults (args : AppArgs) (report : Printed) : List (Text × UInt64) :=
  (reportLines args report).filterMap ReportLine.result?

end RegexTest
end PamoRxpBench
