import PamoRxpBench.RegexTest.WorkerTheorems
import PamoRxpBench.RegexTest.WorkerRunTheorems
import PamoRxpBench.RegexTest.StatsDumpTheorems
import PamoRxpBench.RegexTest.StatsTheorems
import PamoRxpBench.RegexTest.HistogramTheorems
import PamoRxpBench.RegexTest.SubsetsTheorems
import PamoRxpBench.RegexTest.UtilHsTheorems
import PamoRxpBench.RegexTest.ShutdownTheorems
import PamoRxpBench.RegexTest.WorkerInitTheorems
import PamoRxpBench.RegexTest.ArgsParseTheorems
import PamoRxpBench.RegexTest.PatternTableTheorems
import PamoRxpBench.RegexTest.PacketTheorems
import PamoRxpBench.RegexTest.TotalsTheorems
import PamoRxpBench.RegexTest.LaunchTheorems
import PamoRxpBench.Autotest.ProcessTheorems
import PamoRxpBench.Autotest.HashTheorems
import PamoRxpBench.Autotest.ResultFileTheorems
import PamoRxpBench.Autotest.RejectionTheorems
import PamoRxpBench.Autotest.BookkeepingTheorems
import PamoRxpBench.Autotest.GridTheorems
import PamoRxpBench.Autotest.ParseResultTheorems
import PamoRxpBench.Autotest.ParamsRuleSubsetsTheorems
import PamoRxpBench.Autotest.PreparedRulesTheorems
import PamoRxpBench.Autotest.PrepRulesTheorems
import PamoRxpBench.Autotest.PrepHistoryTheorems
import PamoRxpBench.Autotest.PrecompileTheorems
import PamoRxpBench.Autotest.TmuxQuiet
import PamoRxpBench.Autotest.TmuxTheorems
import PamoRxpBench.Autotest.StatsReportTheorems
import PamoRxpBench.Autotest.PipelineTheorems
import PamoRxpBench.Autotest.PatternFlowTheorems
import PamoRxpBench.Autotest.CsvEditTheorems
import PamoRxpBench.Autotest.RendersTheorems
import PamoRxpBench.Data.FilterTheorems
import PamoRxpBench.Data.ExportTheorems
import PamoRxpBench.Data.PatternExportTheorems
import PamoRxpBench.Data.RxpcFilterTheorems
import PamoRxpBench.Data.ContentTheorems
import PamoRxpBench.Data.WorkingSetTheorems
import PamoRxpBench.Data.CleanAndFixTheorems
import PamoRxpBench.Data.RegexGenTheorems
import PamoRxpBench.Data.PrefixesTheorems
import PamoRxpBench.EtAnalysis.LevelsTheorems
import PamoRxpBench.EtAnalysis.MetricsTheorems
import PamoRxpBench.EtAnalysis.MpmTheorems
import PamoRxpBench.EtAnalysis.ReportTheorems
import PamoRxpBench.Doca.RegexScanTheorems
import PamoRxpBench.Doca.DpiScanTheorems
import PamoRxpBench.Library.Brackets
import PamoRxpBench.Data.GenWorkingSetTheorems
